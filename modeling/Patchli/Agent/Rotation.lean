import Patchli.Agent.Authenticity
import Patchli.Agent.Tokens
import Patchli.Api.Server
import Patchli.Ownership.Replay

/-!
# The agent and the server that rotates its tokens

The agent keeps its tokens in memory and in the token file, and asks for new ones when it
is refused. Its request takes effect on the server some time after it was sent, if at all,
and also when the agent has given up or was restarted by then. The newest refresh token of
the node is with the agent, or in a response on its way.
-/

namespace Patchli.Agent.Rotation

open GoString Transaction Db Ownership

/-- The refresh that the agent waits for. -/
inductive Waiting
  | idle
  /-- The request is on its way. -/
  | sent (r : Api.Request)
  /-- The server has begun it, as the request of this number. -/
  | begun (i : ℕ)

def Waiting.unarrived : Waiting → List Api.Request
  | .sent r => [r]
  | .idle | .begun _ => []

structure State (H : Digests) where
  server : Api.State H
  agent : Agent.State
  /-- The content of the token file. -/
  file : Option GoString
  waiting : Waiting
  /-- Requests on their way that the agent does not wait for any more. -/
  stray : List Api.Request

inductive Action
  /-- Requests of others, the statements of all requests, and time. -/
  | server (a : Api.Action)
  /-- An input of the agent that brings no answer to a refresh. -/
  | agent (x : Input)
  | boot
  /-- The agent is refused and asks for new tokens. -/
  | send
  | arrive (i : ℕ) (x : Api.RefreshInput)
  /-- The `k`-th stray request arrives. -/
  | arriveStray (k i : ℕ) (x : Api.RefreshInput)
  /-- The agent gets the response, and saves new tokens or fails to. -/
  | receive (saved : Bool)
  /-- The agent gets another status, or no response. -/
  | fail (answer : Option Response)
  | restart

namespace State

variable {H : Digests}

def initial (H : Digests) (now : Time) (D : Tables) (file : Option GoString) : State H :=
  ⟨.initial H now D, .init now, file, .idle, []⟩

/-- The reply of the server to the refresh that the agent waits for. -/
def reply (s : State H) : Option Api.Reply :=
  match s.waiting with
  | .begun i => (s.server.served.find? fun y => y.request = i).map Api.Served.reply
  | .idle | .sent _ => none

/-- The tokens on their way to the agent. -/
def granted (s : State H) : Option Auth.TokenPair :=
  match s.reply with
  | some (.pair pair) => some pair
  | _ => none

/-- The tokens that the agent has: those in memory, or those in the file as long as it
has not started. -/
def held (s : State H) : Option TokenPair :=
  if s.agent.running then s.agent.pair else loadTokens s.file

end State

section

variable (E : Ed25519) (L : NetURL) (cfg : Config) (J : Auth.Jwt) (hmac : Auth.Hmac)

/-- The end of the wait for a refresh. -/
def State.answered {H : Digests} (s : State H) (answer : Option Response) (saved : Bool) :
    Option (State H) :=
  (s.agent.refused answer).bind fun x =>
    (Agent.step E L cfg s.agent x).map fun agent =>
      { s with
        agent := agent
        file :=
          match refreshTokens L cfg answer with
          | some newTokens => if saved then some (saveTokens newTokens) else s.file
          | none => s.file
        waiting := .idle
        stray := s.stray ++ s.waiting.unarrived }

/-- No request begins but one of another node, or a login. -/
def Foreign (H : Digests) (a : Api.Action) : Bool :=
  match a.onDb J hmac H with
  | some (.begin _ (.rotateRefreshToken mac _ _ _)) | some (.begin _ (.revokeEnrollment mac)) =>
    mac ≠ cfg.nodeID
  | _ => true

/-- One step of the two. A running process waits while a refresh is under way. -/
def step {H : Digests} (s : State H) : Action → Option (State H)
  | .server a =>
    if Foreign cfg J hmac H a then
      (Api.step J hmac s.server a).map fun server => { s with server := server }
    else none
  | .agent x =>
    match s.waiting with
    | .idle =>
      if x.plain then (Agent.step E L cfg s.agent x).map fun agent => { s with agent := agent }
      else none
    | .sent _ | .begun _ => none
  | .boot =>
    (Agent.step E L cfg s.agent (.boot (loadTokens s.file))).map fun agent =>
      { s with agent := agent }
  | .send =>
    match s.waiting, asks L cfg s.agent with
    | .idle, some token => some { s with waiting := .sent (refreshRequest cfg.nodeID token) }
    | _, _ => none
  | .arrive i x =>
    match s.waiting with
    | .sent r => (Api.step J hmac s.server (.refresh i x r)).map fun server =>
        { s with server := server, waiting := .begun i }
    | .idle | .begun _ => none
  | .arriveStray k i x =>
    match s.stray[k]? with
    | some r => (Api.step J hmac s.server (.refresh i x r)).map fun server =>
        { s with server := server, stray := s.stray.eraseIdx k }
    | none => none
  | .receive saved => s.reply.bind fun reply => s.answered E L cfg (some (.ofReply reply)) saved
  | .fail answer =>
    match s.waiting with
    | .idle => none
    | .sent _ | .begun _ =>
      if answer.all fun resp => resp.statusCode ≠ statusOK then s.answered E L cfg answer false
      else none
  | .restart => some { s with
      agent := .init s.agent.now
      waiting := .idle
      stray := s.stray ++ s.waiting.unarrived }

end

/-! ### When nothing is lost -/

def Rotates (mac : GoString) : Db.Call → Prop
  | .rotateRefreshToken m _ _ _ => m = mac
  | .enrollNode _ _ _ _ _ | .revokeEnrollment _ => False

instance (mac : GoString) : DecidablePred (Rotates mac) := fun c =>
  match c with
  | .rotateRefreshToken m _ _ _ => inferInstanceAs (Decidable (m = mac))
  | .enrollNode _ _ _ _ _ | .revokeEnrollment _ => isFalse id

theorem rotates_iff {mac : GoString} {c : Db.Call} :
    Rotates mac c ↔ ∃ old new e, c = .rotateRefreshToken mac old new e := by
  cases c with
  | rotateRefreshToken m old new e => simp [Rotates]
  | enrollNode | revokeEnrollment => simp [Rotates]

def State.Awaits {H : Digests} (s : State H) (i : ℕ) : Prop :=
  match s.waiting with
  | .begun j => j = i
  | .idle | .sent _ => False

instance {H : Digests} (s : State H) (i : ℕ) : Decidable (s.Awaits i) := by
  unfold State.Awaits
  split <;> infer_instance

/-- A rotation for the node is committed only while the agent waits for it, the agent
does not stop waiting for tokens that were granted, and it is restarted only when the
token file has the tokens that it has. -/
def NothingLost (cfg : Config) {H : Digests} (s : State H) : Action → Prop
  | .server (.finish i) =>
    ∀ y ∈ s.server.committing i, Rotates cfg.nodeID y.commit.call → s.Awaits i
  | .fail _ => s.granted = none
  | .restart => s.granted = none ∧ loadTokens s.file = s.held
  | _ => True

instance (cfg : Config) {H : Digests} (s : State H) (a : Action) :
    Decidable (NothingLost cfg s a) := by
  unfold NothingLost
  split <;> infer_instance

/-! ### The newest token -/

/-- The node's token was stored with this expiry, at first or by a rotation. -/
def StoredUntil (mac token₀ : GoString) (e₀ : Time) {H : Digests} (served : List (Api.Served H))
    (token : GoString) (e : Time) : Prop :=
  token = token₀ ∧ e = e₀ ∨ ∃ y ∈ served, y.commit.result = .rotated true ∧
    ∃ old, y.commit.call = .rotateRefreshToken mac old token e

def Lives (mac token₀ : GoString) (e₀ : Time) {H : Digests} (server : Api.State H)
    (token : GoString) : Prop :=
  ∃ e, StoredUntil mac token₀ e₀ server.served token e ∧
    ((hashToken H token, e) ∈ (server.db.store.ledger mac).tokens ∨ e ≤ server.db.now)

/-- What is assumed of the tokens of a node: they are text, and a request that presents
one fits into the body that the server reads. -/
structure Textual (mac : GoString) (p : Auth.TokenPair) : Prop where
  accessToken : Utf8.Valid p.accessToken
  refreshToken : Utf8.Valid p.refreshToken
  fits : (refreshRequest mac p.refreshToken).body.length ≤ Api.maxAuthBodyBytes

variable {E : Ed25519} {L : NetURL} {cfg : Config} {J : Auth.Jwt} {hmac : Auth.Hmac} {H : Digests}
  {token₀ token : GoString} {e₀ e : Time}

theorem StoredUntil.append {served : List (Api.Served H)} {mac : GoString}
    (h : StoredUntil mac token₀ e₀ served token e) (more : List (Api.Served H)) :
    StoredUntil mac token₀ e₀ (served ++ more) token e :=
  h.imp_right fun ⟨y, hy, hrest⟩ => ⟨y, List.mem_append_left _ hy, hrest⟩

/-- While the agent has `p`, its requests present the token of `p`, and the newest token is
that of `p` or of the pair that was granted. -/
structure Inv (L : NetURL) (cfg : Config) (J : Auth.Jwt) (hmac : Auth.Hmac) (token₀ : GoString)
    (e₀ : Time) (s : State H) (p : Auth.TokenPair) : Prop where
  server : Api.Inv J hmac s.server
  unrevoked : ∀ i t, s.server.db.txs i = some t → t.call ≠ .revokeEnrollment cfg.nodeID
  held : s.held = some (.ofServer p)
  issued : ∃ x, Auth.generateTokenPair J x cfg.nodeID = some p
  asking : s.waiting = .idle ∨ asks L cfg s.agent = some p.refreshToken
  sent : ∀ r, s.waiting = .sent r → r = refreshRequest cfg.nodeID p.refreshToken
  begun : ∀ i, s.waiting = .begun i → (∃ x q, s.server.requests i = some (.refresh x q)) ∧
    (∀ t, s.server.db.txs i = some t →
      ∃ new e, t.call = .rotateRefreshToken cfg.nodeID p.refreshToken new e) ∧
    ∀ y ∈ s.server.served, y.request = i → y.commit.call.mac = cfg.nodeID
  lives : Lives cfg.nodeID token₀ e₀ s.server (s.granted.getD p).refreshToken
  reused : ∀ y ∈ s.server.served, ∀ old new e,
    y.commit.call = .rotateRefreshToken cfg.nodeID old new e → y.commit.result = .rotated false →
      ∃ e', StoredUntil cfg.nodeID token₀ e₀ s.server.served old e' ∧ e' ≤ y.commit.committed

variable {s t : State H} {p : Auth.TokenPair}

/-- The request that the agent waits for has no reply while its transaction is open. -/
theorem Inv.reply_eq_none (hinv : Inv L cfg J hmac token₀ e₀ s p) {i : ℕ} {x : Tx (service H)}
    (hwaiting : s.waiting = .begun i) (hx : s.server.db.txs i = some x) : s.reply = none := by
  simp only [State.reply, hwaiting, Option.map_eq_none_iff, List.find?_eq_none, decide_eq_true_eq]
  rintro y hy rfl
  rw [(hinv.server.served y hy).2.1] at hx
  cases hx

theorem Lives.mono {server u : Api.State H} {mac : GoString}
    (h : Lives mac token₀ e₀ server token) {more : List (Api.Served H)}
    (hserved : u.served = server.served ++ more) (hnow : server.db.now ≤ u.db.now)
    (hledger : ∀ q ∈ (server.db.store.ledger mac).tokens, q ∈ (u.db.store.ledger mac).tokens) :
    Lives mac token₀ e₀ u token := by
  obtain ⟨e, hstored, hkept⟩ := h
  exact ⟨e, hserved ▸ hstored.append more, hkept.imp (hledger _) hnow.trans'⟩

/-! ### Steps of the server -/

section Server

variable {u : Api.State H} {a : Api.Action} {i : ℕ} {y : Api.Served H}

theorem awaits_iff : s.Awaits i ↔ s.waiting = .begun i := by
  unfold State.Awaits
  split <;> simp_all

theorem reply_of_not_awaits (hserved : u.served = s.server.served ++ [y])
    (h : ¬ s.Awaits y.request) : ({ s with server := u } : State H).reply = s.reply := by
  cases hwaiting : s.waiting with
  | idle | sent => simp [State.reply, hwaiting]
  | begun j =>
    have hne : y.request ≠ j := fun he => h (awaits_iff.mpr (he ▸ hwaiting))
    simp [State.reply, hwaiting, hserved, List.find?_append, hne]

theorem reply_of_awaits (hserved : u.served = s.server.served ++ [y])
    (hwaiting : s.waiting = .begun y.request) (hreply : s.reply = none) :
    ({ s with server := u } : State H).reply = some y.reply := by
  simp only [State.reply, hwaiting, Option.map_eq_none_iff] at hreply
  simp [State.reply, hwaiting, hserved, List.find?_append, hreply]

/-- A step that leaves the reply to the agent and the tokens of its node. -/
theorem Inv.kept (hinv : Inv L cfg J hmac token₀ e₀ s p)
    (h : Api.step J hmac s.server a = some u)
    (hbegin : ∀ i c, a.onDb J hmac H = some (.begin i c) → c ≠ .revokeEnrollment cfg.nodeID)
    {more : List (Api.Served H)} (hserved : u.served = s.server.served ++ more)
    (hmine : ∀ y ∈ more, s.Awaits y.request → y.commit.call.mac = cfg.nodeID)
    (hlives : Lives cfg.nodeID token₀ e₀ u
      ((({ s with server := u } : State H).granted.getD p).refreshToken))
    (hreused : ∀ y ∈ more, ∀ old new e,
      y.commit.call = .rotateRefreshToken cfg.nodeID old new e → y.commit.result = .rotated false →
        ∃ e', StoredUntil cfg.nodeID token₀ e₀ s.server.served old e' ∧ e' ≤ y.commit.committed) :
    Inv L cfg J hmac token₀ e₀ { s with server := u } p where
  server := Api.inv_step hinv.server h
  unrevoked := by
    intro j x hx
    rcases Api.step_txs h hx with ⟨-, hbegun⟩ | ⟨x₀, hx₀, hcall⟩
    · exact hbegin j _ hbegun
    · exact hcall ▸ hinv.unrevoked j x₀ hx₀
  held := hinv.held
  issued := hinv.issued
  asking := hinv.asking
  sent := hinv.sent
  begun := by
    intro j hwaiting
    obtain ⟨⟨x, q, hq⟩, hcall, hnode⟩ := hinv.begun j hwaiting
    refine ⟨⟨x, q, Api.step_requests hinv.server h hq⟩, fun x hx => ?_, fun y hy hrequest => ?_⟩
    · rcases Api.step_txs h hx with ⟨hnew, -⟩ | ⟨x₀, hx₀, hsame⟩
      · rw [hnew] at hq
        cases hq
      · exact hsame ▸ hcall x₀ hx₀
    · rw [hserved] at hy
      exact (List.mem_append.mp hy).elim (fun hy => hnode y hy hrequest)
        fun hy => hmine y hy (awaits_iff.mpr (hrequest ▸ hwaiting))
  lives := hlives
  reused := by
    intro y hy old new e hcall hresult
    rw [hserved] at hy ⊢
    obtain ⟨e', hstored, hle⟩ := (List.mem_append.mp hy).elim
      (fun hy => hinv.reused y hy old new e hcall hresult)
      (fun hy => hreused y hy old new e hcall hresult)
    exact ⟨e', hstored.append more, hle⟩

/-- The rotation that the agent waits for grants it new tokens, or it comes after the
token of the agent has expired. -/
theorem Inv.rotation (hinv : Inv L cfg J hmac token₀ e₀ s p)
    (h : Api.step J hmac s.server a = some u)
    (hbegin : ∀ i c, a.onDb J hmac H = some (.begin i c) → c ≠ .revokeEnrollment cfg.nodeID)
    (hy : s.server.committing i = some y) (hserved : u.served = s.server.served ++ [y])
    (hnow : u.db.now = s.server.db.now)
    (hmove : Move y.commit.begun (entry H y.commit).event
      (s.server.db.store.ledger y.commit.call.mac) (u.db.store.ledger y.commit.call.mac))
    (hwaiting : s.waiting = .begun i) {old new : GoString} {e : Time}
    (hcall : y.commit.call = .rotateRefreshToken cfg.nodeID old new e) :
    Inv L cfg J hmac token₀ e₀ { s with server := u } p := by
  obtain ⟨rfl, hcommitted, -, x, hx, hxcall, hxbegun⟩ := Api.committing_eq_some hy
  obtain ⟨new', e', hpresents⟩ := (hinv.begun _ hwaiting).2.1 x hx
  obtain ⟨rfl, rfl, rfl⟩ : old = p.refreshToken ∧ new = new' ∧ e = e' := by
    rw [hxcall, hcall] at hpresents
    simpa using hpresents
  have hnone := hinv.reply_eq_none hwaiting hx
  have hreply := reply_of_awaits hserved hwaiting hnone
  have hgranted : s.granted = none := by simp [State.granted, hnone]
  have hmac : y.commit.call.mac = cfg.nodeID := by rw [hcall]; rfl
  have hown : ∀ z ∈ [y], s.Awaits z.request → z.commit.call.mac = cfg.nodeID := by
    simp [hmac]
  have hb : y.commit.begun ≤ s.server.db.now :=
    hxbegun ▸ (hinv.server.guarded _ _ hx).begun_le
  have hu := Api.inv_step hinv.server h
  have hmem : y ∈ u.served := by simp [hserved]
  obtain ⟨e₁, hstored, hkept⟩ : Lives cfg.nodeID token₀ e₀ s.server p.refreshToken := by
    simpa [hgranted] using hinv.lives
  by_cases hresult : y.commit.result = .rotated true
  · obtain ⟨pair, hpair, hnew⟩ := hu.rotated hmem hcall hresult
    have hgrants : ({ s with server := u } : State H).granted = some pair := by
      simp [State.granted, hreply, hpair]
    refine hinv.kept h hbegin hserved hown ?_ fun z hz old new e _ hfalse => ?_
    · rw [hgrants, Option.getD_some, hnew]
      have hevent : (entry H y.commit).event =
          .rotated (hashToken H p.refreshToken) (hashToken H new) e := by
        simp [entry, hcall, hresult, Call.event]
      rw [hevent, hmac] at hmove
      refine ⟨e, Or.inr ⟨y, hmem, hresult, _, hcall⟩, Or.inl ?_⟩
      rw [hmove.eq_apply]
      exact Ledger.row_mem_apply _ _ rfl
    · obtain rfl := List.mem_singleton.mp hz
      rw [hresult] at hfalse
      cases hfalse
  · have hevent : (entry H y.commit).event = .reused (hashToken H p.refreshToken) := by
      simp only [entry, hcall, Call.event]
    rw [hevent, hmac] at hmove
    have hexpired : e₁ ≤ s.server.db.now := by
      refine hkept.elim (fun hrow => ?_) id
      exact (not_lt.mp fun hlt => hmove.unredeemable ⟨e₁, hrow, hlt⟩).trans hb
    have hgrants : ({ s with server := u } : State H).granted = none := by
      simp only [State.granted, hreply]
      split
      · rename_i pair hpair
        have hwritten := (hu.written hmem (Option.some.inj hpair)).1
        simp [stored, hcall, hresult] at hwritten
      · rfl
    refine hinv.kept h hbegin hserved hown ?_ fun z hz old new' e' hzcall _ => ?_
    · rw [hgrants, Option.getD_none]
      exact ⟨e₁, hserved ▸ hstored.append [y], Or.inr (hnow.symm ▸ hexpired)⟩
    · obtain rfl := List.mem_singleton.mp hz
      rw [hcall] at hzcall
      cases hzcall
      exact ⟨e₁, hstored, hcommitted ▸ hexpired⟩

theorem enrolled_of_not_rotates {c : Db.Call} (hmac : c.mac = cfg.nodeID)
    (hrotates : ¬ Rotates cfg.nodeID c) (hrevoke : c ≠ .revokeEnrollment cfg.nodeID)
    (a : Returned) : ∃ new e, c.event H a = .enrolled new e := by
  cases c with
  | enrollNode mac nonce ne tok e => exact ⟨_, e, rfl⟩
  | rotateRefreshToken mac old new e => exact absurd hmac hrotates
  | revokeEnrollment mac => exact absurd (congrArg _ hmac) hrevoke

theorem Inv.serverStep (hinv : Inv L cfg J hmac token₀ e₀ s p)
    (h : Api.step J hmac s.server a = some u)
    (hbegin : ∀ i c, a.onDb J hmac H = some (.begin i c) → c ≠ .revokeEnrollment cfg.nodeID)
    (hcommit : ∀ i, a = .finish i → ∀ y ∈ s.server.committing i,
      Rotates cfg.nodeID y.commit.call → s.Awaits i) :
    Inv L cfg J hmac token₀ e₀ { s with server := u } p := by
  cases Api.step_ledgers hinv.server h with
  | same hnow hserved hledger =>
    have hgranted : ({ s with server := u } : State H).granted = s.granted := by
      simp [State.granted, State.reply, hserved]
    have hmore : u.served = s.server.served ++ [] := by rw [hserved, List.append_nil]
    have hlives := hinv.lives.mono hmore hnow fun q hq => hledger ▸ hq
    rw [← hgranted] at hlives
    exact hinv.kept h hbegin hmore (by simp) hlives (by simp)
  | @commit i y ha hy hserved hnow hmove hframe =>
    by_cases hrotates : Rotates cfg.nodeID y.commit.call
    · obtain ⟨old, new, e, hcall⟩ := rotates_iff.mp hrotates
      exact hinv.rotation h hbegin hy hserved hnow hmove
        (awaits_iff.mp (hcommit i ha y hy hrotates)) hcall
    · obtain ⟨hrequest, -, -, x, hx, hxcall, -⟩ := Api.committing_eq_some hy
      have hawaits : ¬ s.Awaits y.request := by
        intro hawaits
        rw [hrequest] at hawaits
        obtain ⟨new, e, hcall⟩ := (hinv.begun i (awaits_iff.mp hawaits)).2.1 x hx
        rw [hxcall] at hcall
        exact hrotates (rotates_iff.mpr ⟨_, _, _, hcall⟩)
      have hgranted : ({ s with server := u } : State H).granted = s.granted := by
        simp only [State.granted, reply_of_not_awaits hserved hawaits]
      have hown : ∀ z ∈ [y], s.Awaits z.request → z.commit.call.mac = cfg.nodeID := by
        simp [hawaits]
      refine hinv.kept h hbegin hserved hown ?_ fun z hz old new e hcall _ => ?_
      · rw [hgranted]
        refine hinv.lives.mono hserved hnow.ge fun q hq => ?_
        by_cases hmac : y.commit.call.mac = cfg.nodeID
        · obtain ⟨new, e, hevent⟩ : ∃ new e, (entry H y.commit).event = .enrolled new e :=
            enrolled_of_not_rotates hmac hrotates (hxcall ▸ hinv.unrevoked i x hx) _
          rw [hmac] at hmove
          rw [hmove.eq_apply, hevent]
          exact List.mem_append_left _ hq
        · rwa [hframe _ (Ne.symm hmac)]
      · obtain rfl := List.mem_singleton.mp hz
        exact absurd (rotates_iff.mpr ⟨_, _, _, hcall⟩) hrotates

end Server

/-! ### Steps of the agent -/

/-- The agent does not wait any more and has the newest tokens. -/
theorem Inv.idle (hinv : Inv L cfg J hmac token₀ e₀ s p) (hserver : t.server = s.server)
    (hwaiting : t.waiting = .idle) (hheld : t.held = some (.ofServer (s.granted.getD p)))
    (hissued : ∃ x, Auth.generateTokenPair J x cfg.nodeID = some (s.granted.getD p)) :
    Inv L cfg J hmac token₀ e₀ t (s.granted.getD p) where
  server := hserver ▸ hinv.server
  unrevoked := hserver ▸ hinv.unrevoked
  held := hheld
  issued := hissued
  asking := Or.inl hwaiting
  sent := by simp [hwaiting]
  begun := by simp [hwaiting]
  lives := by
    have hgranted : t.granted = none := by simp [State.granted, State.reply, hwaiting]
    rw [hserver, hgranted]
    exact hinv.lives
  reused := hserver ▸ hinv.reused

theorem Inv.kept_idle (hinv : Inv L cfg J hmac token₀ e₀ s p) (hgranted : s.granted = none)
    (hserver : t.server = s.server) (hwaiting : t.waiting = .idle) (hheld : t.held = s.held) :
    Inv L cfg J hmac token₀ e₀ t p := by
  have hp : s.granted.getD p = p := by rw [hgranted, Option.getD_none]
  have hidle := hinv.idle hserver hwaiting (hheld.trans (hp.symm ▸ hinv.held))
    (hp.symm ▸ hinv.issued)
  rwa [hp] at hidle

theorem granted_of_idle (h : s.waiting = .idle) : s.granted = none := by
  simp [State.granted, State.reply, h]

theorem answered_frame {answer : Option Response} {saved : Bool}
    (hasks : asks L cfg s.agent = some token)
    (h : s.answered E L cfg answer saved = some t) :
    t.server = s.server ∧ t.waiting = .idle ∧
      t.held = (refreshTokens L cfg answer).or s.agent.pair := by
  obtain ⟨x, hx, h⟩ := Option.bind_eq_some_iff.mp h
  obtain ⟨agent, hagent, rfl⟩ := Option.map_eq_some_iff.mp h
  obtain ⟨hrunning, hpair⟩ := step_refused hasks hx hagent
  exact ⟨rfl, rfl, by simp [State.held, hrunning, hpair]⟩

theorem Inv.pair_eq (hinv : Inv L cfg J hmac token₀ e₀ s p)
    (hasks : asks L cfg s.agent = some token) :
    s.agent.pair = some (.ofServer p) ∧ token = p.refreshToken := by
  obtain ⟨endpoint, pair, hattempt, rfl, -⟩ := asks_eq_some hasks
  obtain ⟨hrunning, hpair⟩ := attempt_eq_some hattempt
  have hheld := hinv.held
  rw [State.held, if_pos hrunning, hpair] at hheld
  rw [hpair, hheld]
  exact ⟨rfl, congrArg _ (Option.some.inj hheld)⟩

theorem begins_rotation {i : ℕ} {x : Api.RefreshInput} {r : Api.Request} {k : ℕ} {c : Db.Call}
    (h : (Api.Action.refresh i x r).onDb J hmac H = some (.begin k c)) :
    c ≠ .revokeEnrollment cfg.nodeID := by
  simp only [Api.Action.onDb] at h
  split at h
  · cases h
  · rename_i c' pair hok
    cases h
    obtain ⟨req, claims, -, -, -, -, rfl⟩ := Api.beginRefresh_eq_ok hok
    rintro ⟨⟩

theorem Inv.refreshStep (hinv : Inv L cfg J hmac token₀ e₀ s p) {i : ℕ} {x : Api.RefreshInput}
    {r : Api.Request} {u : Api.State H} (h : Api.step J hmac s.server (.refresh i x r) = some u) :
    Inv L cfg J hmac token₀ e₀ { s with server := u } p :=
  hinv.serverStep h (fun _ _ hbegin => begins_rotation hbegin) fun _ => nofun

theorem Inv.arrive (hinv : Inv L cfg J hmac token₀ e₀ s p) (htextual : Textual cfg.nodeID p)
    (hnode : Utf8.Valid cfg.nodeID) {r : Api.Request} (hsent : s.waiting = .sent r) {i : ℕ}
    {x : Api.RefreshInput} {u : Api.State H}
    (h : Api.step J hmac s.server (.refresh i x r) = some u) :
    Inv L cfg J hmac token₀ e₀ { s with server := u, waiting := .begun i } p := by
  have hu := hinv.refreshStep h
  obtain rfl := hinv.sent r hsent
  obtain ⟨c, pair, hok, hnew, hrequest, hserved, hcall⟩ := Api.step_refresh h
  obtain ⟨req, claims, hreq, -, -, -, rfl⟩ := Api.beginRefresh_eq_ok hok
  rw [decode_refreshRequest hnode htextual.refreshToken htextual.fits, Option.some.injEq] at hreq
  subst hreq
  have hunserved : ∀ y ∈ u.served, y.request ≠ i := by
    rintro y hy rfl
    rw [(hinv.server.served y (hserved ▸ hy)).1] at hnew
    cases hnew
  have hgranted : ({ s with server := u, waiting := .begun i } : State H).granted = none := by
    have hfind : u.served.find? (fun y => y.request = i) = none := by simpa using hunserved
    simp [State.granted, State.reply, hfind]
  have hlives := hu.lives
  rw [show ({ s with server := u } : State H).granted = none by
    simp [State.granted, State.reply, hsent]] at hlives
  exact {
    server := hu.server
    unrevoked := hu.unrevoked
    held := hu.held
    issued := hu.issued
    asking := Or.inr (hu.asking.resolve_left (by simp [hsent]))
    sent := by simp
    begun := by
      rintro j ⟨⟩
      exact ⟨⟨x, pair, hrequest⟩, fun t ht => ⟨_, _, hcall t ht⟩,
        fun y hy hyi => absurd hyi (hunserved y hy)⟩
    lives := by rwa [hgranted]
    reused := hu.reused }

/-- The reply to a refresh is a pair that was issued to the node, or an error. -/
theorem Inv.reply_cases (hinv : Inv L cfg J hmac token₀ e₀ s p) {reply : Api.Reply}
    (hreply : s.reply = some reply) :
    (∃ q, reply = .pair q ∧ s.granted = some q ∧
      ∃ x, Auth.generateTokenPair J x cfg.nodeID = some q) ∨
      s.granted = none ∧ (Response.ofReply reply).statusCode ≠ statusOK := by
  have hgranted := hreply
  unfold State.reply at hreply
  split at hreply
  · rename_i i hwaiting
    obtain ⟨y, hfind, rfl⟩ := Option.map_eq_some_iff.mp hreply
    have hy := List.mem_of_find?_eq_some hfind
    have hrequest : y.request = i := by simpa using List.find?_some hfind
    obtain ⟨⟨x, q, hq⟩, -, hmac⟩ := hinv.begun i hwaiting
    have hpending : y.pending = .refresh x q := by
      have hp := (hinv.server.served y hy).1
      rw [hrequest, hq] at hp
      exact (Option.some.inj hp).symm
    cases hr : y.reply with
    | pair q' =>
      obtain ⟨-, x', -, -, hpair⟩ := hinv.server.written hy hr
      rw [hmac y hy hrequest] at hpair
      exact Or.inl ⟨q', rfl, by simp [State.granted, hgranted, hr], x', hpair⟩
    | error err =>
      refine Or.inr ⟨by simp [State.granted, hgranted, hr], ?_⟩
      have hend : Api.endRefresh q ⟨some y.commit.result, none⟩ = .error err := by
        rw [← hr, Api.Served.reply, hpending]
        rfl
      simp only [Api.endRefresh] at hend
      split_ifs at hend
      cases hend
      decide
    | noContent => exact Or.inr ⟨by simp [State.granted, hgranted, hr], by decide⟩
  · cases hreply
  · cases hreply

theorem Inv.agentStep (hinv : Inv L cfg J hmac token₀ e₀ s p) (hwaiting : s.waiting = .idle)
    {x : Input} (hplain : x.plain = true) {agent : Agent.State}
    (h : Agent.step E L cfg s.agent x = some agent) :
    Inv L cfg J hmac token₀ e₀ { s with agent := agent } p := by
  obtain ⟨hrunning, hpair⟩ := step_plain hplain h
  refine hinv.kept_idle (granted_of_idle hwaiting) rfl hwaiting ?_
  simp [State.held, hrunning, hpair]

theorem Inv.boot (hinv : Inv L cfg J hmac token₀ e₀ s p) {agent : Agent.State}
    (h : Agent.step E L cfg s.agent (.boot (loadTokens s.file)) = some agent) :
    Inv L cfg J hmac token₀ e₀ { s with agent := agent } p := by
  obtain ⟨hstopped, hpair⟩ := step_boot h
  -- an agent that does not run asks for nothing
  have hwaiting : s.waiting = .idle := by
    refine hinv.asking.resolve_right fun hasks => ?_
    obtain ⟨endpoint, pair, hattempt, -⟩ := asks_eq_some hasks
    rw [(attempt_eq_some hattempt).1] at hstopped
    cases hstopped
  refine hinv.kept_idle (granted_of_idle hwaiting) rfl hwaiting ?_
  have hfile : s.held = loadTokens s.file := by simp [State.held, hstopped]
  rw [hfile, State.held]
  split_ifs with hrunning
  · exact hpair hrunning
  · rfl

theorem Inv.send (hinv : Inv L cfg J hmac token₀ e₀ s p) (hwaiting : s.waiting = .idle)
    (hasks : asks L cfg s.agent = some token) :
    Inv L cfg J hmac token₀ e₀
      { s with waiting := .sent (refreshRequest cfg.nodeID token) } p := by
  obtain ⟨-, rfl⟩ := hinv.pair_eq hasks
  have hlives := hinv.lives
  rw [granted_of_idle hwaiting] at hlives
  exact {
    server := hinv.server
    unrevoked := hinv.unrevoked
    held := hinv.held
    issued := hinv.issued
    asking := Or.inr hasks
    sent := by
      rintro r ⟨⟩
      rfl
    begun := by simp
    lives := hlives
    reused := hinv.reused }

theorem Inv.fail (hinv : Inv L cfg J hmac token₀ e₀ s p) (hwaiting : s.waiting ≠ .idle)
    (hgranted : s.granted = none) {answer : Option Response}
    (hstatus : ∀ resp ∈ answer, resp.statusCode ≠ statusOK) {saved : Bool}
    (h : s.answered E L cfg answer saved = some t) : Inv L cfg J hmac token₀ e₀ t p := by
  have hasks := hinv.asking.resolve_left hwaiting
  obtain ⟨hserver, hidle, hheld⟩ := answered_frame hasks h
  rw [refreshTokens_status hstatus, Option.none_or] at hheld
  apply hinv.kept_idle hgranted hserver hidle
  rw [hheld, (hinv.pair_eq hasks).1, hinv.held]

theorem Inv.receive (hinv : Inv L cfg J hmac token₀ e₀ s p)
    (hJ : ∀ x q, Auth.generateTokenPair J x cfg.nodeID = some q → Textual cfg.nodeID q)
    {reply : Api.Reply} (hreply : s.reply = some reply) {saved : Bool}
    (h : s.answered E L cfg (some (.ofReply reply)) saved = some t) :
    ∃ q, Inv L cfg J hmac token₀ e₀ t q := by
  have hwaiting : s.waiting ≠ .idle := by
    intro hwaiting
    simp [State.reply, hwaiting] at hreply
  rcases hinv.reply_cases hreply with ⟨q, rfl, hgranted, x, hq⟩ | ⟨hgranted, hstatus⟩
  · have hasks := hinv.asking.resolve_left hwaiting
    obtain ⟨hserver, hidle, hheld⟩ := answered_frame hasks h
    obtain ⟨endpoint, pair, -, -, -, hrefresh⟩ := asks_eq_some hasks
    obtain ⟨v, hv⟩ := reaches_iff.mp hrefresh
    have htextual := hJ x q hq
    rw [refreshTokens_pair hv htextual.accessToken htextual.refreshToken, Option.some_or] at hheld
    refine ⟨_, hinv.idle hserver hidle ?_ ?_⟩
    · rw [hgranted, hheld, Option.getD_some]
    · rw [hgranted]
      exact ⟨x, hq⟩
  · exact ⟨p, hinv.fail hwaiting hgranted (by simpa using hstatus) h⟩

theorem inv_step (hJ : ∀ x q, Auth.generateTokenPair J x cfg.nodeID = some q →
      Textual cfg.nodeID q) (hnode : Utf8.Valid cfg.nodeID)
    (hinv : Inv L cfg J hmac token₀ e₀ s p) {a : Action} (hlost : NothingLost cfg s a)
    (h : step E L cfg J hmac s a = some t) : ∃ q, Inv L cfg J hmac token₀ e₀ t q := by
  cases a with
  | server a =>
    simp only [step, Option.ite_none_right_eq_some] at h
    obtain ⟨hforeign, h⟩ := h
    obtain ⟨u, hu, rfl⟩ := Option.map_eq_some_iff.mp h
    refine ⟨p, hinv.serverStep hu (fun i c hbegin hc => ?_) fun i ha => ?_⟩
    · subst hc
      simp [Foreign, hbegin] at hforeign
    · subst ha
      exact hlost
  | agent x =>
    simp only [step] at h
    split at h
    · rename_i hwaiting
      simp only [Option.ite_none_right_eq_some] at h
      obtain ⟨hplain, h⟩ := h
      obtain ⟨agent, hagent, rfl⟩ := Option.map_eq_some_iff.mp h
      exact ⟨p, hinv.agentStep hwaiting hplain hagent⟩
    · cases h
    · cases h
  | boot =>
    obtain ⟨agent, hagent, rfl⟩ := Option.map_eq_some_iff.mp h
    exact ⟨p, hinv.boot hagent⟩
  | send =>
    simp only [step] at h
    split at h <;> cases h
    rename_i token hwaiting hasks
    exact ⟨p, hinv.send hwaiting hasks⟩
  | arrive i x =>
    simp only [step] at h
    split at h
    · rename_i r hsent
      obtain ⟨u, hu, rfl⟩ := Option.map_eq_some_iff.mp h
      obtain ⟨x₀, hissued⟩ := hinv.issued
      exact ⟨p, hinv.arrive (hJ x₀ p hissued) hnode hsent hu⟩
    · cases h
    · cases h
  | arriveStray k i x =>
    simp only [step] at h
    split at h
    · obtain ⟨u, hu, rfl⟩ := Option.map_eq_some_iff.mp h
      exact ⟨p, { hinv.refreshStep hu with }⟩
    · cases h
  | receive saved =>
    obtain ⟨reply, hreply, h⟩ := Option.bind_eq_some_iff.mp h
    exact hinv.receive hJ hreply h
  | fail answer =>
    have hstatus (hall : (answer.all fun resp => resp.statusCode ≠ statusOK) = true) :
        ∀ resp ∈ answer, resp.statusCode ≠ statusOK := by
      rintro resp rfl
      simpa using hall
    simp only [step] at h
    split at h
    · cases h
    all_goals
      rename_i hwaiting
      simp only [Option.ite_none_right_eq_some] at h
      exact ⟨p, hinv.fail (by simp [hwaiting]) hlost (hstatus h.1) h.2⟩
  | restart =>
    cases h
    obtain ⟨hgranted, hfile⟩ := hlost
    exact ⟨p, hinv.kept_idle hgranted rfl rfl hfile⟩

/-- An enrolled node keeps a refresh token that the server stores until it expires, in its
memory, in its token file or in the response on its way, and no rotation revokes the
node's tokens before that. -/
theorem agent_keeps_token (hnode : Api.validNodeID cfg.nodeID = true)
    (hJ : ∀ x q, Auth.generateTokenPair J x cfg.nodeID = some q → Textual cfg.nodeID q)
    {x₀ : Auth.PairInput} {p₀ : Auth.TokenPair}
    (hissued : Auth.generateTokenPair J x₀ cfg.nodeID = some p₀) {file : Option GoString}
    (hfile : loadTokens file = some (.ofServer p₀)) {now : Time} {D : Tables} {row : RefreshToken}
    (hrow : row ∈ D.tokensOf cfg.nodeID) (hhash : row.tokenHash = hashToken H p₀.refreshToken)
    {as : List Action} {s : State H}
    (hlost : Machine.Meets (step E L cfg J hmac) (NothingLost cfg) (.initial H now D file) as)
    (hrun : Machine.run (step E L cfg J hmac) (.initial H now D file) as = some s) :
    (∀ y ∈ s.server.served, ∀ old new e,
      y.commit.call = .rotateRefreshToken cfg.nodeID old new e → y.commit.result = .rotated false →
        ∃ e', StoredUntil cfg.nodeID p₀.refreshToken row.expiresAt s.server.served old e' ∧
          e' ≤ y.commit.committed) ∧
    ∃ p, s.held = some (.ofServer p) ∧ ∃ e,
      StoredUntil cfg.nodeID p₀.refreshToken row.expiresAt s.server.served
        (s.granted.getD p).refreshToken e ∧
      (s.server.db.now < e → ∃ r ∈ s.server.db.store.tokensOf cfg.nodeID,
        r.tokenHash = hashToken H (s.granted.getD p).refreshToken ∧ r.expiresAt = e) := by
  have hvalid : Utf8.Valid cfg.nodeID := Api.valid_of_validNodeID hnode
  have hinitial : Inv L cfg J hmac p₀.refreshToken row.expiresAt (.initial H now D file) p₀ := by
    have hledger : (hashToken H p₀.refreshToken, row.expiresAt) ∈ (D.ledger cfg.nodeID).tokens :=
      mem_ledger_tokens.mpr ⟨row, hrow, by rw [hhash]⟩
    exact {
      server := Api.inv_initial now D
      unrevoked := fun _ _ ht => nomatch ht
      held := hfile
      issued := ⟨x₀, hissued⟩
      asking := Or.inl rfl
      sent := fun _ hr => nomatch hr
      begun := fun _ hi => nomatch hi
      lives := ⟨row.expiresAt, Or.inl ⟨rfl, rfl⟩, Or.inl hledger⟩
      reused := fun _ hy => nomatch hy }
  obtain ⟨p, hinv⟩ := Machine.run_invariant_of_meets (step E L cfg J hmac)
    (I := fun s => ∃ p, Inv L cfg J hmac p₀.refreshToken row.expiresAt s p)
    (fun _ _ _ ⟨_, hinv⟩ hlost h => inv_step hJ hvalid hinv hlost h) ⟨p₀, hinitial⟩ hlost hrun
  refine ⟨hinv.reused, p, hinv.held, ?_⟩
  obtain ⟨e, hstored, hkept⟩ := hinv.lives
  refine ⟨e, hstored, fun hlt => ?_⟩
  obtain ⟨r, hr, heq⟩ := mem_ledger_tokens.mp (hkept.resolve_right (not_le.mpr hlt))
  exact ⟨r, hr, Prod.mk.inj heq⟩

/-! ### A lost response -/

/-- The bytes of a string. -/
private def utf8 (s : String) : GoString := s.toByteArray.data.toList

/-- The pairs that node `aa` is given at first, after one hour and after two, under the
secret of `SetTestSecrets`. -/
private def dayTokens : List (Auth.MapClaims × GoString) := [
  (Auth.agentClaims 0 (List.replicate 16 1) (ascii "aa") Auth.tokenTypeAccess
      Auth.accessTokenDuration,
    utf8 "eyJhbGciOiJIUzI1NiIsInR5cCI6IkpXVCJ9.eyJhdWQiOiJwYXRjaGxpLWFnZW50IiwiZXhwIjozN" ++
      utf8 "jAwLCJpYXQiOjAsImp0aSI6IjAxMDEwMTAxMDEwMTAxMDEwMTAxMDEwMTAxMDEwMTAxIiwic3ViIjo" ++
      utf8 "iYWEiLCJ0eXAiOiJhY2Nlc3MifQ.o4Qs8Zu5YegeRwIK6eiLgu54yPCzv-IXq6TUb8E35GQ"),
  (Auth.agentClaims 0 (List.replicate 16 3) (ascii "aa") Auth.tokenTypeRefresh
      Auth.refreshTokenDuration,
    utf8 "eyJhbGciOiJIUzI1NiIsInR5cCI6IkpXVCJ9.eyJhdWQiOiJwYXRjaGxpLWFnZW50IiwiZXhwIjo2M" ++
      utf8 "DQ4MDAsImlhdCI6MCwianRpIjoiMDMwMzAzMDMwMzAzMDMwMzAzMDMwMzAzMDMwMzAzMDMiLCJzdWI" ++
      utf8 "iOiJhYSIsInR5cCI6InJlZnJlc2gifQ.Y1-FyZwsnboLSx5dOdLGYj2-_HfZ6hUpxethEGZ4C1w"),
  (Auth.agentClaims hour (List.replicate 16 4) (ascii "aa") Auth.tokenTypeAccess
      Auth.accessTokenDuration,
    utf8 "eyJhbGciOiJIUzI1NiIsInR5cCI6IkpXVCJ9.eyJhdWQiOiJwYXRjaGxpLWFnZW50IiwiZXhwIjo3M" ++
      utf8 "jAwLCJpYXQiOjM2MDAsImp0aSI6IjA0MDQwNDA0MDQwNDA0MDQwNDA0MDQwNDA0MDQwNDA0Iiwic3V" ++
      utf8 "iIjoiYWEiLCJ0eXAiOiJhY2Nlc3MifQ.3lRdB4dr4L99bPeQKTXfIjsJwf1a_gdmIHaff4W11P4"),
  (Auth.agentClaims hour (List.replicate 16 5) (ascii "aa") Auth.tokenTypeRefresh
      Auth.refreshTokenDuration,
    utf8 "eyJhbGciOiJIUzI1NiIsInR5cCI6IkpXVCJ9.eyJhdWQiOiJwYXRjaGxpLWFnZW50IiwiZXhwIjo2M" ++
      utf8 "Dg0MDAsImlhdCI6MzYwMCwianRpIjoiMDUwNTA1MDUwNTA1MDUwNTA1MDUwNTA1MDUwNTA1MDUiLCJ" ++
      utf8 "zdWIiOiJhYSIsInR5cCI6InJlZnJlc2gifQ.DPzaTgMRbWtwiWwvk3MdDqchr7BBdwiJQnxrqpWd3L" ++
      utf8 "U"),
  (Auth.agentClaims (2 * hour) (List.replicate 16 6) (ascii "aa") Auth.tokenTypeAccess
      Auth.accessTokenDuration,
    utf8 "eyJhbGciOiJIUzI1NiIsInR5cCI6IkpXVCJ9.eyJhdWQiOiJwYXRjaGxpLWFnZW50IiwiZXhwIjoxM" ++
      utf8 "DgwMCwiaWF0Ijo3MjAwLCJqdGkiOiIwNjA2MDYwNjA2MDYwNjA2MDYwNjA2MDYwNjA2MDYwNiIsInN" ++
      utf8 "1YiI6ImFhIiwidHlwIjoiYWNjZXNzIn0.Qt-VifT7Vqq5t34oVLQljh0oI5iQkfEiaw7QJKUmg-c"),
  (Auth.agentClaims (2 * hour) (List.replicate 16 7) (ascii "aa") Auth.tokenTypeRefresh
      Auth.refreshTokenDuration,
    utf8 "eyJhbGciOiJIUzI1NiIsInR5cCI6IkpXVCJ9.eyJhdWQiOiJwYXRjaGxpLWFnZW50IiwiZXhwIjo2M" ++
      utf8 "TIwMDAsImlhdCI6NzIwMCwianRpIjoiMDcwNzA3MDcwNzA3MDcwNzA3MDcwNzA3MDcwNzA3MDciLCJ" ++
      utf8 "zdWIiOiJhYSIsInR5cCI6InJlZnJlc2gifQ.ZsnySnfUn23prIClbpKex2IlFiQ9cq0LxIn6eoxtCW" ++
      utf8 "U")]

private def dayToken (i : ℕ) : GoString := dayTokens[i]?.elim [] Prod.snd

private def dayJwt : Auth.Jwt where
  signedString claims := (dayTokens.find? fun p => p.1 = claims).map Prod.snd
  verified tokenStr := (dayTokens.find? fun p => p.2 = tokenStr).map Prod.fst

/-- The digests of the refresh tokens, and the lock key of node `aa`. -/
private def dayDigests : Digests where
  sha256 := GoString.tabulate [(dayToken 1, [
      20, 229, 110, 205, 40, 230, 41, 196, 216, 226, 99, 71, 34, 223, 173, 231,
      212, 36, 181, 161, 190, 12, 94, 218, 77, 170, 59, 239, 59, 212, 57, 13]), (dayToken 3, [
      215, 120, 218, 45, 40, 212, 211, 2, 24, 185, 130, 205, 195, 31, 228, 15,
      22, 211, 131, 216, 29, 146, 121, 100, 114, 171, 192, 246, 242, 241, 9, 1]), (dayToken 5, [
      143, 66, 58, 95, 245, 86, 98, 125, 120, 206, 78, 114, 183, 136, 43, 165,
      104, 26, 56, 3, 190, 44, 213, 224, 86, 228, 142, 200, 70, 73, 239, 185])]
  hashtextextended _ _ := 4434922278757143110

private def agentConfig : Config := ⟨ascii "c", false, [], ascii "aa"⟩

private def firstPair : Auth.TokenPair := ⟨dayToken 0, dayToken 1⟩

private def enrolledRow : RefreshToken :=
  ⟨some (ascii "aa"), hashToken dayDigests (dayToken 1), Auth.refreshTokenDuration⟩

/-- Node `aa` enrolled with its first pair. -/
private def enrolledTables : Tables where
  nodes := Function.update (fun _ => none) (ascii "aa") (some ⟨ascii "aa", ascii "enrolled"⟩)
  refreshTokens := [enrolledRow]
  registrationNonces := []
  nodeEnrollments :=
    Function.update (fun _ => none) (ascii "aa") (some ⟨0, Auth.refreshTokenDuration⟩)

private def enrolled : State dayDigests :=
  .initial dayDigests 0 enrolledTables (some (saveTokens (.ofServer firstPair)))

private def dayStep : State dayDigests → Action → Option (State dayDigests) :=
  step (Command.markingEd25519 []) plainNetURL agentConfig dayJwt Auth.testHmac

/-- The agent asks for tokens as request `i`, whose `n` statements are executed and
committed. -/
private def refresh (i : ℕ) (now : Time) (accessJti refreshJti : UInt8) (n : ℕ) : List Action :=
  [.server (.tick now), .send, .arrive i (Api.refreshInput now accessJti refreshJti)] ++
    List.replicate n (.server (.exec i)) ++ [.server (.finish i)]

private def restart : List Action := [.restart, .boot]

/-- The response to the first refresh is lost. After a restart the agent presents the old
token again. -/
private def lostResponse : List Action :=
  .boot :: refresh 1 hour 4 5 5 ++ .fail none :: restart ++ refresh 2 (2 * hour) 6 7 4

/-- The response arrives and is saved, and the agent is restarted. -/
private def savedResponse : List Action :=
  .boot :: refresh 1 hour 4 5 5 ++ .receive true :: restart

private theorem day_runs :
    (∃ s ∈ Machine.run dayStep enrolled lostResponse,
      (∃ y ∈ s.server.served, y.commit.result = .rotated false ∧
        y.commit.call = .rotateRefreshToken (ascii "aa") (dayToken 1) (dayToken 5)
          (2 * hour + Auth.refreshTokenDuration) ∧
        y.commit.committed < enrolledRow.expiresAt) ∧
      s.held = some (.ofServer firstPair) ∧ s.granted = none ∧
      s.server.db.store.tokensOf (ascii "aa") = []) ∧
    (∃ s ∈ Machine.run dayStep enrolled savedResponse, s.granted = none ∧
      s.held = some ⟨dayToken 2, dayToken 3⟩) ∧
    Machine.Meets dayStep (NothingLost agentConfig) enrolled savedResponse ∧
    Auth.generateTokenPair dayJwt (Api.pairInput 0 1 3) (ascii "aa") = some firstPair ∧
    ∀ p ∈ dayTokens, (∀ b ∈ p.2, b < 0x80) ∧
      (refreshRequest (ascii "aa") p.2).body.length ≤ Api.maxAuthBodyBytes := by
  decide +kernel

private theorem dayTokens_textual (x : Auth.PairInput) (q : Auth.TokenPair)
    (h : Auth.generateTokenPair dayJwt x (ascii "aa") = some q) : Textual (ascii "aa") q := by
  have hsigned {claims : Auth.MapClaims} {tokenStr : GoString}
      (h : dayJwt.signedString claims = some tokenStr) : (∀ b ∈ tokenStr, b < 0x80) ∧
      (refreshRequest (ascii "aa") tokenStr).body.length ≤ Api.maxAuthBodyBytes := by
    obtain ⟨p, hp, rfl⟩ := Option.map_eq_some_iff.mp h
    exact day_runs.2.2.2.2 p (List.mem_of_find?_eq_some hp)
  simp only [Auth.generateTokenPair, Option.bind_eq_bind, Option.bind_eq_some_iff,
    Option.pure_def, Option.some.injEq] at h
  obtain ⟨accessToken, haccess, refreshStr, hrefresh, rfl⟩ := h
  exact ⟨Utf8.valid_of_ascii (hsigned haccess).1, Utf8.valid_of_ascii (hsigned hrefresh).1,
    (hsigned hrefresh).2⟩

theorem agent_keeps_token_saved : ∃ s p, Machine.run dayStep enrolled savedResponse = some s ∧
    s.held = some (.ofServer p) ∧ s.granted = none ∧ p.refreshToken = dayToken 3 ∧
    ∃ e, StoredUntil (ascii "aa") (dayToken 1) enrolledRow.expiresAt s.server.served
        p.refreshToken e ∧
      (s.server.db.now < e → ∃ r ∈ s.server.db.store.tokensOf (ascii "aa"),
        r.tokenHash = hashToken dayDigests p.refreshToken ∧ r.expiresAt = e) := by
  obtain ⟨-, ⟨s, hs, hgranted, hheld⟩, hlost, hissued, -⟩ := day_runs
  have htextual := dayTokens_textual _ _ hissued
  have hrow : enrolledRow ∈ enrolledTables.tokensOf (ascii "aa") :=
    Tables.mem_tokensOf.mpr ⟨List.mem_singleton_self _, rfl⟩
  have hnode : Api.validNodeID agentConfig.nodeID = true := by decide
  have hfile : loadTokens (some (saveTokens (.ofServer firstPair))) = some (.ofServer firstPair) :=
    loadTokens_saveTokens htextual.accessToken htextual.refreshToken
  have hhash : enrolledRow.tokenHash = hashToken dayDigests firstPair.refreshToken := by
    rw [enrolledRow, firstPair]
  obtain ⟨-, p, hp, hlives⟩ := agent_keeps_token hnode dayTokens_textual hissued hfile
    hrow hhash hlost hs
  rw [hgranted] at hlives
  refine ⟨s, p, hs, hp, hgranted, ?_, hlives⟩
  rw [hheld] at hp
  exact (congrArg TokenPair.refreshToken (Option.some.inj hp)).symm

/-- The server takes the second request for a reuse, though the token it presents has not
expired, and revokes the token whose response was lost. -/
theorem not_agent_keeps_token : ∃ s, Machine.run dayStep enrolled lostResponse = some s ∧
    (∃ y ∈ s.server.served, y.commit.result = .rotated false ∧
      y.commit.call = .rotateRefreshToken (ascii "aa") (dayToken 1) (dayToken 5)
        (2 * hour + Auth.refreshTokenDuration) ∧
      y.commit.committed < enrolledRow.expiresAt) ∧
    s.held = some (.ofServer firstPair) ∧ s.granted = none ∧
    s.server.db.store.tokensOf (ascii "aa") = [] :=
  day_runs.1

end Patchli.Agent.Rotation
