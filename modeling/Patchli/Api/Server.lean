import Patchli.Api.Attempts
import Patchli.Db.Ownership

/-!
# The token requests of a server

Any number of logins, refreshes and revocations run side by side. Each passes its checks,
begins its transaction, and executes it statement by statement; a request that fails a
check has no effect and is left out. The clock is shared by the handlers and the database
and never goes back.
-/

namespace Patchli.Api

open Auth Transaction Ownership Db

/-- A request whose transaction has begun: the readings it made and the pair it writes
when its call succeeds. -/
inductive Pending
  | login (x : LoginInput) (pair : TokenPair)
  | refresh (x : RefreshInput) (pair : TokenPair)
  | revoke

/-- The clock readings before the transaction. -/
def Pending.readings : Pending → List Time
  | .login x _ => x.readings
  | .refresh x _ => x.readings
  | .revoke => []

/-- The inputs to the pair, and the pair. -/
def Pending.made : Pending → Option (PairInput × TokenPair)
  | .login x pair => some (x.pair, pair)
  | .refresh x pair => some (x.pair, pair)
  | .revoke => none

def Pending.reply : Pending → Outcome Returned DbError → Reply
  | .login _ pair, out => endLogin pair out
  | .refresh _ pair, out => endRefresh pair out
  | .revoke, out => endRevoke out

/-- A request whose transaction was committed. -/
structure Served (H : Digests) where
  request : ℕ
  pending : Pending
  commit : Commit (service H)

/-- What a served request writes. -/
def Served.reply {H : Digests} (y : Served H) : Reply :=
  y.pending.reply ⟨some y.commit.result, none⟩

/-- Requests are numbered; `served` lists the committed ones in order. -/
structure State (H : Digests) where
  db : Transaction.State (service H)
  requests : ℕ → Option Pending
  served : List (Served H)

inductive Action
  | tick (t : Time)
  | login (i : ℕ) (x : LoginInput) (r : Request)
  | refresh (i : ℕ) (x : RefreshInput) (r : Request)
  | revoke (i : ℕ) (r : Request)
  /-- The next statement of a request. -/
  | exec (i : ℕ)
  /-- A call of the driver fails. -/
  | abort (i : ℕ)
  /-- Commit, or roll back the error that the body returned. -/
  | finish (i : ℕ)

namespace State

variable {H : Digests}

def initial (H : Digests) (now : Time) (D : Tables) : State H :=
  ⟨Db.initial H now D, fun _ => none, []⟩

/-- A new request begins its transaction. -/
def start (s : State H) (i : ℕ) (p : Pending) (c : Db.Call) : Option (State H) :=
  if s.requests i = none ∧ (p.readings ++ [s.db.now]).Pairwise (· ≤ ·) then
    (Db.step H s.db (.begin i c)).map fun db =>
      { s with db := db, requests := Function.update s.requests i (some p) }
  else none

/-- The entry that a commit of request `i` makes. -/
def committing (s : State H) (i : ℕ) : Option (Served H) :=
  match s.requests i, s.db.txs i with
  | some p, some ⟨c, b, _, .ret (.ok a)⟩ => some ⟨i, p, ⟨c, b, s.db.now, a⟩⟩
  | _, _ => none

end State

def step (J : Jwt) (hmac : Hmac) {H : Digests} (s : State H) : Action → Option (State H)
  | .tick t => (Db.step H s.db (.tick t)).map fun db => { s with db := db }
  | .login i x r =>
    match beginLogin J hmac x r with
    | .error _ => none
    | .ok (c, pair) => s.start i (.login x pair) c
  | .refresh i x r =>
    match beginRefresh J x r with
    | .error _ => none
    | .ok (c, pair) => s.start i (.refresh x pair) c
  | .revoke i r =>
    match beginRevoke r with
    | .error _ => none
    | .ok c => s.start i .revoke c
  | .exec i => (Db.step H s.db (.exec i)).map fun db => { s with db := db }
  | .abort i => (Db.step H s.db (.abort i)).map fun db => { s with db := db }
  | .finish i => (Db.step H s.db (.finish i)).map fun db =>
    { s with db := db, served := s.served ++ (s.committing i).toList }

/-! ### What requests come from -/

/-- The request passed its checks with this call as the result. -/
def Pending.Began (J : Jwt) (hmac : Hmac) : Pending → Db.Call → Prop
  | .login x pair, c => ∃ r, beginLogin J hmac x r = .ok (c, pair)
  | .refresh x pair, c => ∃ r, beginRefresh J x r = .ok (c, pair)
  | .revoke, c => ∃ r, beginRevoke r = .ok c

variable {J : Jwt} {hmac : Hmac} {H : Digests} {s u : State H} {i j : ℕ} {p : Pending}
  {c : Db.Call}

/-- What holds of every state: transactions belong to requests that passed their checks,
and the entries of the log to requests that were served. -/
structure Inv (J : Jwt) (hmac : Hmac) (s : State H) : Prop where
  guarded : guarded.Inv s.db
  log : s.db.log = s.served.map Served.commit
  begun : ∀ i t, s.db.txs i = some t → ∃ p, s.requests i = some p ∧ p.Began J hmac t.call ∧
    ∀ x ∈ p.readings, x ≤ t.begun
  served : ∀ y ∈ s.served, s.requests y.request = some y.pending ∧ s.db.txs y.request = none ∧
    y.pending.Began J hmac y.commit.call ∧ (∀ x ∈ y.pending.readings, x ≤ y.commit.begun) ∧
    y.commit.begun ≤ y.commit.committed ∧ y.commit.committed ≤ s.db.now
  once : (s.served.map Served.request).Nodup
  ordered : s.served.Pairwise fun y z => y.commit.committed ≤ z.commit.committed

inductive Effect (J : Jwt) (hmac : Hmac) (s : State H) : Action → State H → Prop
  /-- The step begins a request. -/
  | begin {a : Action} {i : ℕ} {p : Pending} {c : Db.Call} (hnew : s.requests i = none)
      (hbegan : p.Began J hmac c) (hreadings : ∀ x ∈ p.readings, x ≤ s.db.now) :
    Effect J hmac s a { s with
      db := { s.db with
        txs := Function.update s.db.txs i (some ⟨c, s.db.now, [], body H c⟩) }
      requests := Function.update s.requests i (some p) }
  /-- The step works on transactions in progress, or ends one without a commit. -/
  | work {a : Action} {db : Transaction.State (service H)} (hnow : s.db.now ≤ db.now)
      (hstore : db.store = s.db.store) (hlog : db.log = s.db.log)
      (htxs : ∀ i t, db.txs i = some t → ∃ t₀, s.db.txs i = some t₀ ∧ t₀.call = t.call ∧
        t₀.begun = t.begun) :
    Effect J hmac s a { s with db := db }
  /-- The step commits the transaction of a request. -/
  | serve {i : ℕ} {p : Pending} {c : Db.Call} {b : Time} {ws : List Write} {a : Returned}
      (hp : s.requests i = some p) (ht : s.db.txs i = some ⟨c, b, ws, .ret (.ok a)⟩) :
    Effect J hmac s (.finish i) { s with
      db := { s.db.close i with
        store := overlay (L := sql H) ws s.db.store
        log := s.db.log ++ [⟨c, b, s.db.now, a⟩] }
      served := s.served ++ [⟨i, p, ⟨c, b, s.db.now, a⟩⟩] }

theorem start_effect {a : Action} (h : s.start i p c = some u) (hbegan : p.Began J hmac c) :
    Effect J hmac s a u := by
  unfold State.start at h
  split_ifs at h with hstart
  obtain ⟨hnew, hordered⟩ := hstart
  obtain ⟨db, hdb, rfl⟩ := Option.map_eq_some_iff.mp h
  simp only [Db.step, Transaction.step] at hdb
  split at hdb <;> cases hdb
  refine .begin hnew hbegan fun x hx => ?_
  exact (List.pairwise_append.mp hordered).2.2 x hx s.db.now (List.mem_singleton_self _)

theorem work_effect {a : Transaction.Action (service H)} {b : Action}
    {db : Transaction.State (service H)} (h : Db.step H s.db a = some db)
    (hbegin : ∀ i c, a ≠ .begin i c) (hfinish : ∀ i, a = .finish i → s.committing i = none)
    (hbegun : ∀ i t, s.db.txs i = some t → ∃ p, s.requests i = some p) :
    Effect J hmac s b { s with db := db } := by
  have htxs (i : ℕ) (t : Tx (service H)) (ht : db.txs i = some t) :
      ∃ t₀, s.db.txs i = some t₀ ∧ t₀.call = t.call ∧ t₀.begun = t.begun :=
    (txs_step h ht).resolve_left (hbegin i _)
  cases a with
  | tick t =>
    simp only [Db.step, Transaction.step, Option.ite_none_right_eq_some, Option.some.injEq] at h
    obtain ⟨hle, rfl⟩ := h
    exact .work hle rfl rfl htxs
  | begin i c => exact absurd rfl (hbegin i c)
  | exec i =>
    simp only [Db.step, Transaction.step] at h
    split at h
    · split at h
      · split at h <;> cases h <;> exact .work le_rfl rfl rfl htxs
      · cases h
    · cases h
  | abort i =>
    simp only [Db.step, Transaction.step] at h
    split at h <;> cases h
    exact .work le_rfl rfl rfl htxs
  | finish i =>
    simp only [Db.step, Transaction.step] at h
    split at h
    · rename_i c b ws a ht
      obtain ⟨p, hp⟩ := hbegun i _ ht
      have hnone := hfinish i rfl
      simp [State.committing, hp, ht] at hnone
    · cases h
      exact .work le_rfl rfl rfl htxs
    · cases h

theorem step_effect (hinv : Inv J hmac s) {a : Action} (h : step J hmac s a = some u) :
    Effect J hmac s a u := by
  have hbegun : ∀ i t, s.db.txs i = some t → ∃ p, s.requests i = some p := fun i t ht =>
    (hinv.begun i t ht).imp fun p hp => hp.1
  cases a with
  | tick | exec | abort =>
    obtain ⟨db, hdb, rfl⟩ := Option.map_eq_some_iff.mp h
    exact work_effect hdb (fun _ _ => nofun) (fun _ => nofun) hbegun
  | login i x r =>
    simp only [step] at h
    split at h
    · cases h
    · rename_i c pair hok
      exact start_effect h ⟨r, hok⟩
  | refresh i x r =>
    simp only [step] at h
    split at h
    · cases h
    · rename_i c pair hok
      exact start_effect h ⟨r, hok⟩
  | revoke i r =>
    simp only [step] at h
    split at h
    · cases h
    · rename_i c hok
      exact start_effect h ⟨r, hok⟩
  | finish i =>
    obtain ⟨db, hdb, rfl⟩ := Option.map_eq_some_iff.mp h
    rcases hcommit : s.committing i with _ | y
    · have heffect : Effect J hmac s (.finish i) { s with db := db } :=
        work_effect hdb (fun _ _ => nofun) (fun j hj => by cases hj; exact hcommit) hbegun
      simpa using heffect
    · simp only [State.committing] at hcommit
      split at hcommit <;> cases hcommit
      rename_i p c b ws a hp ht
      simp only [Db.step, Transaction.step, ht, Option.some.injEq] at hdb
      subst hdb
      exact .serve hp ht

/-- What an action does on the database. -/
def Action.onDb (J : Jwt) (hmac : Hmac) (H : Digests) :
    Action → Option (Transaction.Action (service H))
  | .tick t => some (.tick t)
  | .login i x r =>
    match beginLogin J hmac x r with
    | .error _ => none
    | .ok (c, _) => some (.begin i c)
  | .refresh i x r =>
    match beginRefresh J x r with
    | .error _ => none
    | .ok (c, _) => some (.begin i c)
  | .revoke i r =>
    match beginRevoke r with
    | .error _ => none
    | .ok c => some (.begin i c)
  | .exec i => some (.exec i)
  | .abort i => some (.abort i)
  | .finish i => some (.finish i)

theorem step_onDb {a : Action} (h : step J hmac s a = some u) :
    ∃ b, a.onDb J hmac H = some b ∧ Db.step H s.db b = some u.db := by
  have hstart {i : ℕ} {p : Pending} {c : Db.Call} (h : s.start i p c = some u) :
      Db.step H s.db (.begin i c) = some u.db := by
    unfold State.start at h
    split_ifs at h
    obtain ⟨db, hdb, rfl⟩ := Option.map_eq_some_iff.mp h
    exact hdb
  cases a with
  | tick | exec | abort | finish =>
    obtain ⟨db, hdb, rfl⟩ := Option.map_eq_some_iff.mp h
    exact ⟨_, rfl, hdb⟩
  | login | refresh | revoke =>
    simp only [step, Action.onDb] at h ⊢
    split at h
    · cases h
    · exact ⟨_, rfl, hstart h⟩

theorem step_db {a : Action} (h : step J hmac s a = some u) :
    ∃ b, Db.step H s.db b = some u.db :=
  (step_onDb h).imp fun _ hb => hb.2

/-- The step leaves the ledgers alone, or it commits a request. -/
inductive Ledgers (s : State H) (a : Action) (u : State H) : Prop
  | same (hnow : s.db.now ≤ u.db.now) (hserved : u.served = s.served)
      (hledger : u.db.store.ledger = s.db.store.ledger)
  | commit {i : ℕ} {y : Served H} (ha : a = .finish i) (hy : s.committing i = some y)
      (hserved : u.served = s.served ++ [y]) (hnow : u.db.now = s.db.now)
      (hmove : Move y.commit.begun (entry H y.commit).event
        (s.db.store.ledger y.commit.call.mac) (u.db.store.ledger y.commit.call.mac))
      (hframe : ∀ n, n ≠ y.commit.call.mac → u.db.store.ledger n = s.db.store.ledger n)

theorem step_ledgers (hinv : Inv J hmac s) {a : Action} (h : step J hmac s a = some u) :
    Ledgers s a u := by
  obtain ⟨b, hb⟩ := step_db h
  have hworld := (step_refines hinv.guarded hb).2
  cases step_effect hinv h with
  | begin => exact .same le_rfl rfl rfl
  | work hnow hstore => exact .same hnow rfl (congrArg Tables.ledger hstore)
  | @serve i p c b ws a hp ht =>
    rcases step_cases hworld with ⟨-, -, hlog⟩ | ⟨n, ev, b', -, -, hmove, hframe, hlog⟩
    · simp [world] at hlog
    · obtain ⟨rfl, rfl, rfl⟩ : c.mac = n ∧ c.event H a = ev ∧ b = b' := by
        simpa [world, entry] using hlog
      exact .commit rfl (by simp [State.committing, hp, ht]) rfl rfl hmove hframe

theorem step_txs {a : Action} (h : step J hmac s a = some u) {j : ℕ} {t : Tx (service H)}
    (ht : u.db.txs j = some t) : s.requests j = none ∧ a.onDb J hmac H = some (.begin j t.call) ∨
      ∃ t₀, s.db.txs j = some t₀ ∧ t₀.call = t.call := by
  obtain ⟨b, hb, hstep⟩ := step_onDb h
  have hnew {i : ℕ} {p : Pending} {c : Db.Call} (h : s.start i p c = some u) :
      s.requests i = none := by
    unfold State.start at h
    split_ifs at h with hstart
    exact hstart.1
  rcases Transaction.txs_step hstep ht with rfl | ⟨t₀, ht₀, hcall, -⟩
  · refine Or.inl ⟨?_, hb⟩
    cases a with
    | tick | exec | abort | finish => cases hb
    | login | refresh | revoke =>
      simp only [step, Action.onDb] at h hb
      split at h
      · cases h
      · rename_i hok
        simp only [hok, Option.some.injEq, Transaction.Action.begin.injEq] at hb
        exact hb.1 ▸ hnew h
  · exact Or.inr ⟨t₀, ht₀, hcall⟩

theorem step_refresh {x : RefreshInput} {r : Request}
    (h : step J hmac s (.refresh i x r) = some u) :
    ∃ c pair, beginRefresh J x r = .ok (c, pair) ∧ s.requests i = none ∧
      u.requests i = some (.refresh x pair) ∧ u.served = s.served ∧
      ∀ t, u.db.txs i = some t → t.call = c := by
  simp only [step] at h
  split at h
  · cases h
  rename_i c pair hok
  unfold State.start at h
  split_ifs at h with hstart
  obtain ⟨db, hdb, rfl⟩ := Option.map_eq_some_iff.mp h
  simp only [Db.step, Transaction.step] at hdb
  split at hdb <;> cases hdb
  refine ⟨c, pair, hok, hstart.1, by simp, rfl, fun t ht => ?_⟩
  obtain rfl : _ = t := by simpa using ht
  rfl

theorem step_requests (hinv : Inv J hmac s) {a : Action} (h : step J hmac s a = some u)
    (hp : s.requests i = some p) : u.requests i = some p := by
  cases step_effect hinv h with
  | @begin _ j _ _ hnew =>
    have hij : i ≠ j := by
      rintro rfl
      rw [hnew] at hp
      cases hp
    simpa [hij] using hp
  | work | serve => exact hp

theorem committing_eq_some {y : Served H} (h : s.committing i = some y) : y.request = i ∧
    y.commit.committed = s.db.now ∧ s.requests i = some y.pending ∧
    ∃ t, s.db.txs i = some t ∧ t.call = y.commit.call ∧ t.begun = y.commit.begun := by
  simp only [State.committing] at h
  split at h <;> cases h
  rename_i p c b ws a hp ht
  exact ⟨rfl, rfl, hp, _, ht, rfl, rfl⟩

theorem inv_initial (now : Time) (D : Tables) : Inv J hmac (State.initial H now D) where
  guarded := Db.guarded.inv_initial now D
  log := rfl
  begun := fun _ _ ht => nomatch ht
  served := fun _ hy => nomatch hy
  once := List.nodup_nil
  ordered := .nil

theorem inv_step (hinv : Inv J hmac s) {a : Action} (h : step J hmac s a = some u) :
    Inv J hmac u := by
  obtain ⟨b, hb⟩ := step_db h
  have hguarded := (Db.guarded.step_cases hinv.guarded hb).1
  cases step_effect hinv h with
  | @begin _ i p c hnew hbegan hreadings =>
    refine ⟨hguarded, hinv.log, fun j t ht => ?_, fun y hy => ?_, hinv.once, hinv.ordered⟩
    · by_cases hj : j = i
      · subst hj
        obtain rfl : _ = t := by simpa using ht
        exact ⟨p, by simp, hbegan, hreadings⟩
      · simpa [hj] using hinv.begun j t (by simpa [hj] using ht)
    · obtain ⟨hp, ht, hrest⟩ := hinv.served y hy
      have hne : y.request ≠ i := by
        rintro rfl
        rw [hnew] at hp
        cases hp
      exact ⟨by simpa [hne] using hp, by simpa [hne] using ht, hrest⟩
  | work hnow hstore hlog htxs =>
    refine ⟨hguarded, hlog.trans hinv.log, fun j t ht => ?_, fun y hy => ?_, hinv.once,
      hinv.ordered⟩
    · obtain ⟨t₀, ht₀, hcall, hbegun⟩ := htxs j t ht
      rw [← hcall, ← hbegun]
      exact hinv.begun j t₀ ht₀
    · obtain ⟨hp, ht, hbegan, hreadings, hle, hcommitted⟩ := hinv.served y hy
      refine ⟨hp, ?_, hbegan, hreadings, hle, hcommitted.trans hnow⟩
      refine Option.eq_none_iff_forall_ne_some.mpr fun t hy' => ?_
      obtain ⟨t₀, ht₀, -⟩ := htxs _ t hy'
      rw [ht] at ht₀
      cases ht₀
  | @serve i p c b ws a hp ht =>
    obtain ⟨q, hq, hbegan, hreadings⟩ := hinv.begun i _ ht
    obtain rfl : p = q := Option.some.inj (hp.symm.trans hq)
    refine ⟨hguarded, by simp [hinv.log], fun j t hj => ?_, fun y hy => ?_, ?_, ?_⟩
    · by_cases hji : j = i
      · simp [Transaction.State.close, hji] at hj
      · exact hinv.begun j t (by simpa [Transaction.State.close, hji] using hj)
    · rcases List.mem_append.mp hy with hy | hy
      · obtain ⟨hpy, hty, hrest⟩ := hinv.served y hy
        refine ⟨hpy, ?_, hrest⟩
        by_cases hyi : y.request = i <;> simp [Transaction.State.close, hyi]
        exact hty
      · obtain rfl := List.mem_singleton.mp hy
        exact ⟨hp, by simp [Transaction.State.close], hbegan, hreadings,
          (hinv.guarded i _ ht).begun_le, le_rfl⟩
    · rw [List.map_append]
      refine hinv.once.append (List.nodup_singleton _) (List.disjoint_singleton.mpr ?_)
      intro hmem
      obtain ⟨y, hy, rfl⟩ := List.mem_map.mp hmem
      rw [(hinv.served y hy).2.1] at ht
      cases ht
    · refine List.pairwise_append.mpr ⟨hinv.ordered, List.pairwise_singleton .., ?_⟩
      rintro y hy _ (_ | ⟨_, ⟨⟩⟩)
      exact (hinv.served y hy).2.2.2.2.2

/-- A pair that is written was made by its request, for the node whose store has the
refresh token. -/
theorem Inv.written (hinv : Inv J hmac s) {y : Served H} (hy : y ∈ s.served) {pair : TokenPair}
    (hreply : y.reply = .pair pair) : stored y.commit = some pair.refreshToken ∧
      ∃ x, y.pending.made = some (x, pair) ∧ x.accessNow ≤ y.commit.begun ∧
        generateTokenPair J x y.commit.call.mac = some pair := by
  obtain ⟨-, -, hbegan, hreadings, -⟩ := hinv.served y hy
  obtain ⟨i, p, c, b, t, a⟩ := y
  cases p with
  | login x pair' =>
    have hreply : endLogin pair' ⟨some a, none⟩ = .pair pair := hreply
    obtain ⟨-, rfl⟩ := endLogin_eq_pair hreply
    obtain ⟨r, hr⟩ := hbegan
    obtain ⟨req, t', -, -, -, -, -, hpair, rfl⟩ := beginLogin_eq_ok hr
    exact ⟨rfl, x.pair, rfl, hreadings _ (by simp [Pending.readings, LoginInput.readings]), hpair⟩
  | refresh x pair' =>
    have hreply : endRefresh pair' ⟨some a, none⟩ = .pair pair := hreply
    obtain ⟨-, hrotated, rfl⟩ := endRefresh_eq_pair hreply
    obtain rfl : a = .rotated true := Option.some.inj hrotated
    obtain ⟨r, hr⟩ := hbegan
    obtain ⟨req, claims, -, -, -, hpair, rfl⟩ := beginRefresh_eq_ok hr
    exact ⟨rfl, x.pair, rfl, hreadings _ (by simp [Pending.readings, RefreshInput.readings]), hpair⟩
  | revoke => cases hreply

/-- A rotation that redeemed its token writes the pair with the token it stored. -/
theorem Inv.rotated (hinv : Inv J hmac s) {y : Served H} (hy : y ∈ s.served)
    {mac old new : GoString} {e : Time} (hcall : y.commit.call = .rotateRefreshToken mac old new e)
    (hresult : y.commit.result = .rotated true) :
    ∃ pair, y.reply = .pair pair ∧ pair.refreshToken = new := by
  obtain ⟨-, -, hbegan, -⟩ := hinv.served y hy
  obtain ⟨i, p, c, b, t, a⟩ := y
  cases hcall
  cases hresult
  cases p with
  | login x pair =>
    obtain ⟨r, hr⟩ := hbegan
    obtain ⟨req, t', -, -, -, -, -, -, hc⟩ := beginLogin_eq_ok hr
    cases hc
  | refresh x pair =>
    obtain ⟨r, hr⟩ := hbegan
    obtain ⟨req, claims, -, -, -, -, hc⟩ := beginRefresh_eq_ok hr
    cases hc
    exact ⟨pair, rfl, rfl⟩
  | revoke =>
    obtain ⟨r, hr⟩ := hbegan
    obtain ⟨mac', -, -, hc⟩ := beginRevoke_eq_ok hr
    cases hc

/-! ### Test runs -/

/-- Request `i`, its `n` statements and its end. -/
def serve (request : Action) (i n : ℕ) : List Action :=
  request :: List.replicate n (.exec i) ++ [.finish i]

def login (i : ℕ) (now : Time) (accessJti refreshJti : UInt8) (g : Grant) : List Action :=
  serve (.login i (loginInput now accessJti refreshJti) (loginRequest (ascii "aa") g)) i 8

end Patchli.Api
