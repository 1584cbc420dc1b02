import Patchli.Db.Transactions
import Patchli.Ownership.Ledger

/-!
# The enrollment store keeps a ledger

Abstract the rows of each node to its ledger. Every statement acts on that
ledger, every committed transaction makes one move of it, and so every run of
the store is a run of the ledgers.
-/

namespace Patchli.Db

open Transaction Ownership

/-- Token hashes with their expiries, and the end of the claim. -/
def NodeRows.ledger (p : NodeRows) : Ledger GoString Time :=
  ⟨p.tokens.map fun r => (r.tokenHash, r.expiresAt), p.enrollment.map Enrollment.expiresAt⟩

def Tables.ledger (D : Tables) (mac : GoString) : Ledger GoString Time := (D.nodeRows mac).ledger

theorem mem_ledger_tokens {D : Tables} {mac : GoString} {p : GoString × Time} :
    p ∈ (D.ledger mac).tokens ↔ ∃ r ∈ D.tokensOf mac, (r.tokenHash, r.expiresAt) = p := by
  simp [Tables.ledger, NodeRows.ledger, Tables.nodeRows]

/-! ### Statements -/

/-- What a statement does to the ledger of its node. -/
def Stmt.onLedger (now : Time) : Stmt → Ledger GoString Time → Ledger GoString Time
  | .upsertEnrollment _ e, l => { l with claim := some e }
  | .insertRefreshToken _ hash e, l => { l with tokens := l.tokens ++ [(hash, e)] }
  | .deleteRefreshToken _ hash, l => { l with tokens := l.without now hash }
  | .deleteRefreshTokens _, l => { l with tokens := [] }
  | .extendEnrollment _ e, l => { l with claim := some (l.claim.elim e fun c => max c e) }
  | .deleteEnrollment _, l => { l with claim := none }
  | _, l => l

/-- What the reply of a statement says about the ledger of its node. -/
def Stmt.Answers (now : Time) (l : Ledger GoString Time) : (q : Stmt) → q.Reply → Prop
  | .enrolled _, r => r = false → ∀ c, l.claim = some c → c ≤ now
  | .deleteRefreshToken _ hash, r => r = (0 : ℕ) ↔ ¬ l.Redeemable now hash
  | .rowsAffected n, r => r = n
  | _, _ => True

/-- The rows of one hash are those whose deletion the ledger records. -/
theorem filter_not_mem_rows (rows : List RefreshToken) (hash : GoString) (now : Time) :
    (rows.filter fun r => decide (r ∉ rows.filter fun r =>
        r.tokenHash = hash && decide (now < r.expiresAt))).map
        (fun r => (r.tokenHash, r.expiresAt)) =
      (rows.map fun r => (r.tokenHash, r.expiresAt)).filter fun p =>
        !(decide (p.1 = hash) && decide (now < p.2)) := by
  rw [List.filter_map]
  congr 1
  refine List.filter_congr fun r hr => ?_
  by_cases hlt : now < r.expiresAt <;> simp [hr, hlt]

theorem redeemable_iff {D : Tables} {mac hash : GoString} {now : Time} :
    (D.ledger mac).Redeemable now hash ↔
      (D.tokensOf mac).filter (fun r => r.tokenHash = hash && decide (now < r.expiresAt)) ≠ [] := by
  rw [Ledger.Redeemable, ne_eq, List.filter_eq_nil_iff]
  simp only [mem_ledger_tokens, Prod.mk.injEq, Bool.and_eq_true, decide_eq_true_eq, not_forall,
    not_not]
  constructor
  · rintro ⟨e, ⟨r, hr, rfl, rfl⟩, hlt⟩
    exact ⟨r, hr, rfl, hlt⟩
  · rintro ⟨r, hr, rfl, hlt⟩
    exact ⟨r.expiresAt, ⟨r, hr, rfl, rfl⟩, hlt⟩

theorem eval_ledger {D : Tables} {k : GoString} {now : Time} {q : Stmt} {r : q.Reply}
    {vs : List Write} (hq : q.node = some k) (heval : D.eval now q = some (r, vs)) :
    (vs.foldl (fun E w => E.write w) D).ledger k = q.onLedger now (D.ledger k) ∧
      q.Answers now (D.ledger k) r := by
  cases q <;> simp only [Stmt.node, Option.some.injEq, reduceCtorEq] at hq <;> subst hq
  case enrolled mac =>
    cases heval
    refine ⟨rfl, ?_⟩
    intro hr c hc
    cases he : D.nodeEnrollments mac <;>
      simp_all [Tables.ledger, NodeRows.ledger, Tables.nodeRows]
  case upsertEnrollment mac e =>
    cases heval
    simp [nodeRows_write, NodeRows.write, Stmt.onLedger, Stmt.Answers, Tables.ledger,
      NodeRows.ledger]
  case insertNode mac =>
    simp only [Tables.eval] at heval
    split at heval <;> cases heval <;>
      simp [nodeRows_write, NodeRows.write, Stmt.onLedger, Stmt.Answers, Tables.ledger,
        NodeRows.ledger]
  case insertRefreshToken mac hash e =>
    simp only [Tables.eval] at heval
    split at heval <;> cases heval
    simp [nodeRows_write, NodeRows.write, Stmt.onLedger, Stmt.Answers, Tables.ledger,
      NodeRows.ledger]
  case deleteRefreshToken mac hash =>
    cases heval
    refine ⟨?_, ?_⟩
    · simp only [List.foldl_cons, List.foldl_nil, Tables.ledger, nodeRows_write, NodeRows.write,
        NodeRows.ledger, Stmt.onLedger, Ledger.without, Tables.nodeRows_tokens,
        Tables.nodeRows_enrollment, filter_not_mem_rows]
    · simp only [Stmt.Answers, redeemable_iff, not_not, List.length_eq_zero_iff]
  case deleteRefreshTokens mac =>
    cases heval
    simp [nodeRows_write, NodeRows.write, Stmt.onLedger, Stmt.Answers, Tables.ledger,
      NodeRows.ledger]
  case extendEnrollment mac e =>
    simp only [Tables.eval] at heval
    split at heval <;> cases heval <;> rename_i he <;>
      simp [nodeRows_write, NodeRows.write, Stmt.onLedger, Stmt.Answers, Tables.ledger,
        NodeRows.ledger, he]
  case deleteEnrollment mac =>
    cases heval
    simp [nodeRows_write, NodeRows.write, Stmt.onLedger, Stmt.Answers, Tables.ledger,
      NodeRows.ledger]

variable {H : Digests}

/-- The ledger that a transaction with pending writes sees. -/
def seen (H : Digests) (ws : List Write) (D : Tables) (k : GoString) : Ledger GoString Time :=
  Tables.ledger (overlay (L := sql H) ws D) k

theorem completes_run {k : GoString} {b : Time} {D : Tables} {ws out : List Write} {q : Stmt}
    {r : q.Reply} (hq : q.node = none ∨ q.node = some k)
    (h : Completes (byNode H) k b D ws (run q) out r) :
    seen H out D k = q.onLedger b (seen H ws D k) ∧ q.Answers b (seen H ws D k) r := by
  obtain ⟨vs, hreply, rfl⟩ := completes_exec.mp h
  have hout : seen H (ws ++ vs) D k =
      Tables.ledger (overlay (L := sql H) vs (overlay (L := sql H) ws D)) k := by
    rw [seen, overlay_append]
  rcases hq with hq | hq
  · have hframe : seen H (ws ++ vs) D k = seen H ws D k := by
      have hforeign := hreply.foreign (by rw [show (byNode H).scope q = none from hq]; simp)
      rw [hout, Tables.ledger]
      exact congrArg NodeRows.ledger (hforeign.overlay _)
    obtain ⟨E, -, heval⟩ := hreply
    rw [hframe]
    cases q with
    | rowsAffected n =>
      cases heval
      exact ⟨rfl, rfl⟩
    | advisoryXactLock | deleteExpiredNonces | insertNonce => exact ⟨rfl, trivial⟩
    | _ => cases hq
  · rw [hout]
    exact eval_ledger hq ((replies_of_scope hq).mp hreply)

/-! ### Transactions -/

theorem completes_withNodeLock {α : Type} {mac : GoString} {fn : OnTx H (Except DbError α)}
    {b : Time} {D : Tables} {out : List Write} {r : Except DbError α}
    (h : Completes (byNode H) mac b D [] (withNodeLock H mac fn) out r) :
    ∃ ws, seen H ws D mac = D.ledger mac ∧ Completes (byNode H) mac b D ws fn out r := by
  obtain ⟨ws, _, hlock, hfn⟩ := completes_bind.mp h
  exact ⟨ws, (completes_run (Or.inl rfl) hlock).1, hfn⟩

theorem completes_consumeNonce {k nonce : GoString} {e b : Time} {D : Tables}
    {ws out : List Write} {r : Bool}
    (h : Completes (byNode H) k b D ws (consumeNonce H nonce e) out r) :
    seen H out D k = seen H ws D k := by
  obtain ⟨ws₁, _, h₁, h⟩ := completes_bind.mp h
  obtain ⟨ws₂, n, h₂, h⟩ := completes_bind.mp h
  obtain ⟨ws₃, m, h₃, h⟩ := completes_bind.mp h
  obtain ⟨rfl, -⟩ := completes_ret.mp h
  exact ((completes_run (Or.inl rfl) h₃).1.trans (completes_run (Or.inl rfl) h₂).1).trans
    (completes_run (Or.inl rfl) h₁).1

theorem enrollNode_moves {mac nonce tok : GoString} {ne e b : Time} {D : Tables}
    {out : List Write}
    (h : Completes (byNode H) mac b D [] (enrollNode H mac nonce ne tok e) out (.ok ())) :
    Move b (.enrolled (hashToken H tok) e) (D.ledger mac) (seen H out D mac) := by
  obtain ⟨ws, hws, h⟩ := completes_withNodeLock h
  obtain ⟨ws₁, enrolled, h₁, h⟩ := completes_bind.mp h
  obtain ⟨hl₁, hclaim⟩ := completes_run (Or.inr rfl) h₁
  split at h
  · cases (completes_ret.mp h).2
  · rename_i hfalse
    obtain ⟨ws₂, fresh, h₂, h⟩ := completes_bind.mp h
    split at h
    · cases (completes_ret.mp h).2
    · obtain ⟨ws₃, _, h₃, h⟩ := completes_bind.mp h
      obtain ⟨ws₄, _, h₄, h⟩ := completes_bind.mp h
      obtain ⟨ws₅, _, h₅, h⟩ := completes_bind.mp h
      obtain ⟨rfl, -⟩ := completes_ret.mp h
      have hseen : seen H out D mac =
          ⟨(D.ledger mac).tokens ++ [(hashToken H tok, e)], some e⟩ := by
        rw [(completes_run (Or.inr rfl) h₅).1, (completes_run (Or.inr rfl) h₄).1,
          (completes_run (Or.inr rfl) h₃).1, completes_consumeNonce h₂, hl₁, hws]
        rfl
      rw [hseen]
      refine .enrolled ?_
      rw [← hws]
      exact hclaim (by simpa using hfalse)

/-- A committed `RotateRefreshToken` redeemed the old token, or found it not
redeemable and revoked every token of the node. -/
theorem rotateRefreshToken_moves {mac old new : GoString} {e b : Time} {D : Tables}
    {out : List Write} {ok : Bool}
    (h : Completes (byNode H) mac b D [] (rotateRefreshToken H mac old new e) out (.ok ok)) :
    Move b (if ok then .rotated (hashToken H old) (hashToken H new) e
      else .reused (hashToken H old)) (D.ledger mac) (seen H out D mac) := by
  obtain ⟨ws, hws, h⟩ := completes_withNodeLock h
  obtain ⟨ws₁, res, h₁, h⟩ := completes_bind.mp h
  obtain ⟨hl₁, hres⟩ := completes_run (Or.inr rfl) h₁
  obtain ⟨ws₂, n, h₂, h⟩ := completes_bind.mp h
  obtain ⟨hl₂, hn⟩ := completes_run (Or.inl rfl) h₂
  rw [hws] at hl₁ hres
  have hn : n = res := hn
  simp only [Stmt.Answers] at hres
  rw [hn] at h
  split at h
  · rename_i hzero
    obtain ⟨ws₃, _, h₃, h⟩ := completes_bind.mp h
    obtain ⟨rfl, hok⟩ := completes_ret.mp h
    cases hok
    have hseen : seen H out D mac = ⟨[], (D.ledger mac).claim⟩ := by
      rw [(completes_run (Or.inr rfl) h₃).1, hl₂, hl₁]
      rfl
    rw [hseen]
    exact .reused (hres.mp hzero)
  · rename_i hpos
    obtain ⟨ws₃, _, h₃, h⟩ := completes_bind.mp h
    obtain ⟨ws₄, _, h₄, h⟩ := completes_bind.mp h
    obtain ⟨rfl, hok⟩ := completes_ret.mp h
    cases hok
    have hseen : seen H out D mac =
        ⟨(D.ledger mac).without b (hashToken H old) ++ [(hashToken H new, e)],
          some ((D.ledger mac).claim.elim e fun c => max c e)⟩ := by
      rw [(completes_run (Or.inr rfl) h₄).1, (completes_run (Or.inr rfl) h₃).1, hl₂, hl₁]
      rfl
    rw [hseen]
    exact .rotated (not_not.mp fun hr => hpos (hres.mpr hr))

theorem revokeEnrollment_moves {mac : GoString} {b : Time} {D : Tables} {out : List Write}
    (h : Completes (byNode H) mac b D [] (revokeEnrollment H mac) out (.ok ())) :
    Move b .revoked (D.ledger mac) (seen H out D mac) := by
  obtain ⟨ws, hws, h⟩ := completes_withNodeLock h
  obtain ⟨ws₁, _, h₁, h⟩ := completes_bind.mp h
  obtain ⟨ws₂, _, h₂, h⟩ := completes_bind.mp h
  obtain ⟨rfl, -⟩ := completes_ret.mp h
  have hseen : seen H out D mac = ⟨[], none⟩ := by
    rw [(completes_run (Or.inr rfl) h₂).1, (completes_run (Or.inr rfl) h₁).1, hws]
    rfl
  rw [hseen]
  exact .revoked

/-- The event a committed call is for the ledgers. -/
def Call.event (H : Digests) : Call → Returned → Event GoString Time
  | .enrollNode _ _ _ tok e, _ => .enrolled (hashToken H tok) e
  | .rotateRefreshToken _ old new e, .rotated true => .rotated (hashToken H old) (hashToken H new) e
  | .rotateRefreshToken _ old _ _, _ => .reused (hashToken H old)
  | .revokeEnrollment _, _ => .revoked

theorem body_moves {c : Call} {b : Time} {D : Tables} {out : List Write} {a : Returned}
    (h : Completes (byNode H) c.mac b D [] (body H c) out (.ok a)) :
    Move b (c.event H a) (D.ledger c.mac) (seen H out D c.mac) := by
  cases c with
  | enrollNode mac nonce ne tok e =>
    obtain ⟨ws, r, hbody, hret⟩ := completes_bind.mp h
    obtain ⟨rfl, ha⟩ := completes_ret.mp hret
    cases r with
    | error => cases ha
    | ok => exact enrollNode_moves hbody
  | rotateRefreshToken mac old new e =>
    obtain ⟨ws, r, hbody, hret⟩ := completes_bind.mp h
    obtain ⟨rfl, ha⟩ := completes_ret.mp hret
    cases r with
    | error => cases ha
    | ok rotated =>
      cases ha
      have hmove := rotateRefreshToken_moves hbody
      cases rotated <;> exact hmove
  | revokeEnrollment mac =>
    obtain ⟨ws, r, hbody, hret⟩ := completes_bind.mp h
    obtain ⟨rfl, ha⟩ := completes_ret.mp hret
    cases r with
    | error => cases ha
    | ok => exact revokeEnrollment_moves hbody

/-! ### Runs -/

def entry (H : Digests) (c : Commit (service H)) : Entry GoString GoString Time :=
  ⟨c.call.mac, c.call.event H c.result, c.begun, c.committed⟩

/-- The ledgers that a state of the store stands for. -/
def world (s : State (service H)) : World GoString GoString Time :=
  ⟨s.now, s.store.ledger, s.log.map (entry H)⟩

theorem step_refines {s u : State (service H)} {a : Action (service H)}
    (hinv : guarded.Inv s) (hstep : step H s a = some u) :
    guarded.Inv u ∧ Step (world s) (world u) := by
  obtain ⟨hu, heffect⟩ := guarded.step_cases hinv hstep
  refine ⟨hu, ?_⟩
  cases heffect with
  | silent hnow hstore hlog =>
    have hworld : world u = { world s with now := u.now } := by
      simp [world, hstore, hlog]
    rw [hworld]
    exact .tick hnow
  | @commit i t r _ ht hret hnow hlog hstore hbegun hcompletes hframe =>
    have hmove := body_moves (a := r) hcompletes
    have hworld : world u = { world s with
        ledger := Function.update (world s).ledger t.call.mac (u.store.ledger t.call.mac)
        log := (world s).log ++ [⟨t.call.mac, t.call.event H r, t.begun, (world s).now⟩] } := by
      simp only [world, hnow, hlog, List.map_append, List.map_cons, List.map_nil, entry,
        World.mk.injEq, true_and, and_true]
      funext k
      by_cases hk : k = t.call.mac
      · simp [hk]
      · rw [Function.update_of_ne hk]
        exact congrArg NodeRows.ledger (hframe k hk)
    rw [hworld]
    refine .move hbegun ?_
    rw [hstore]
    exact hmove

theorem run_refines {now : Time} {D : Tables} {as : List (Action (service H))}
    {s : State (service H)} (hrun : Machine.run (step H) (initial H now D) as = some s) :
    guarded.Inv s ∧ Ownership.Reaches (world (initial H now D)) (world s) := by
  refine Machine.run_invariant (step H)
    (I := fun s => guarded.Inv s ∧ Ownership.Reaches (world (initial H now D)) (world s)) ?_
    ⟨guarded.inv_initial now D, .refl⟩ hrun
  rintro s a u ⟨hinv, hreach⟩ hstep
  obtain ⟨hu, hs⟩ := step_refines hinv hstep
  exact ⟨hu, hreach.tail hs⟩

end Patchli.Db
