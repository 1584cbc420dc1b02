import Patchli.Foundation.GoString
import Patchli.Foundation.Serialization

/-!
# Tables and statements of the enrollment store

The tables are those of the migrations, with the columns that the statements of
`db.go` read or write. A table with a primary key is a map from the key; nonces
stay a list because they are pruned by expiry. Each statement of `db.go` is one
constructor of `Stmt`, with its bound parameters. Times are compared as they are given;
a column and `CURRENT_TIMESTAMP` have whole microseconds.
-/

namespace Patchli.Db

open Transaction

/-- `TIMESTAMP WITH TIME ZONE`: the driver cuts a time off to whole microseconds. -/
def timestamptz (t : Time) : Time := t / 1000 * 1000

theorem timestamptz_mono {s t : Time} (h : s ≤ t) : timestamptz s ≤ timestamptz t :=
  Int.mul_le_mul_of_nonneg_right (Int.ediv_le_ediv (by decide) h) (by decide)

/-- A row of `nodes`, keyed by `mac_address`. -/
structure Node where
  hostname : GoString
  status : GoString
  deriving DecidableEq

structure RefreshToken where
  /-- The column is nullable. -/
  macAddress : Option GoString
  tokenHash : GoString
  expiresAt : Time
  deriving DecidableEq

/-- A row of `node_enrollments`, keyed by `mac_address`. -/
structure Enrollment where
  enrolledAt : Time
  expiresAt : Time
  deriving DecidableEq

structure RegistrationNonce where
  nonceHash : GoString
  expiresAt : Time
  deriving DecidableEq

structure Tables where
  nodes : GoString → Option Node
  refreshTokens : List RefreshToken
  registrationNonces : List RegistrationNonce
  nodeEnrollments : GoString → Option Enrollment

namespace Tables

def empty : Tables := ⟨fun _ => none, [], [], fun _ => none⟩

/-- `refresh_tokens WHERE mac_address = $1`. -/
def tokensOf (D : Tables) (mac : GoString) : List RefreshToken :=
  D.refreshTokens.filter fun r => r.macAddress = some mac

theorem mem_tokensOf {D : Tables} {mac : GoString} {r : RefreshToken} :
    r ∈ D.tokensOf mac ↔ r ∈ D.refreshTokens ∧ r.macAddress = some mac := by
  simp [tokensOf]

end Tables

/-- The tables before migration 000006, which adds `node_enrollments`. -/
structure TablesV5 where
  nodes : GoString → Option Node
  refreshTokens : List RefreshToken
  registrationNonces : List RegistrationNonce

/-- Migration 000006: every node with an unexpired token gets a claim up to the
latest of its token expiries. The table is new, so no row conflicts. -/
def migration000006 (now : Time) (D : TablesV5) : Tables where
  nodes := D.nodes
  refreshTokens := D.refreshTokens
  registrationNonces := D.registrationNonces
  nodeEnrollments := fun mac =>
    let live := D.refreshTokens.filter fun r => r.macAddress = some mac && decide (now < r.expiresAt)
    (live.map RefreshToken.expiresAt).max?.map fun expiresAt => ⟨now, expiresAt⟩

inductive Stmt
  /-- `SELECT pg_advisory_xact_lock(hashtextextended($1, 0))` -/
  | advisoryXactLock (name : GoString)
  /-- `SELECT EXISTS(SELECT 1 FROM node_enrollments
  WHERE mac_address = $1 AND expires_at > CURRENT_TIMESTAMP)` -/
  | enrolled (mac : GoString)
  /-- `DELETE FROM registration_nonces WHERE expires_at < CURRENT_TIMESTAMP` -/
  | deleteExpiredNonces
  /-- `INSERT INTO registration_nonces (nonce_hash, expires_at) VALUES ($1, $2)
  ON CONFLICT (nonce_hash) DO NOTHING` -/
  | insertNonce (hash : GoString) (expiresAt : Time)
  /-- `INSERT INTO node_enrollments (mac_address, enrolled_at, expires_at)
  VALUES ($1, CURRENT_TIMESTAMP, $2) ON CONFLICT (mac_address) DO UPDATE SET
  enrolled_at = EXCLUDED.enrolled_at, expires_at = EXCLUDED.expires_at` -/
  | upsertEnrollment (mac : GoString) (expiresAt : Time)
  /-- `INSERT INTO nodes (hostname, mac_address, status) VALUES ($1, $1, 'enrolled')
  ON CONFLICT (mac_address) DO NOTHING` -/
  | insertNode (mac : GoString)
  /-- `INSERT INTO refresh_tokens (mac_address, token_hash, expires_at) VALUES ($1, $2, $3)` -/
  | insertRefreshToken (mac hash : GoString) (expiresAt : Time)
  /-- `DELETE FROM refresh_tokens
  WHERE mac_address = $1 AND token_hash = $2 AND expires_at > CURRENT_TIMESTAMP` -/
  | deleteRefreshToken (mac hash : GoString)
  /-- `DELETE FROM refresh_tokens WHERE mac_address = $1` -/
  | deleteRefreshTokens (mac : GoString)
  /-- `INSERT INTO node_enrollments (mac_address, expires_at) VALUES ($1, $2)
  ON CONFLICT (mac_address) DO UPDATE SET
  expires_at = GREATEST(node_enrollments.expires_at, EXCLUDED.expires_at)` -/
  | extendEnrollment (mac : GoString) (expiresAt : Time)
  /-- `DELETE FROM node_enrollments WHERE mac_address = $1` -/
  | deleteEnrollment (mac : GoString)
  /-- `res.RowsAffected()` on a result of `n` rows; it sends nothing but can fail. -/
  | rowsAffected (n : ℕ)

/-- Deletions answer with the number of rows, the probe with its truth value. -/
@[reducible] def Stmt.Reply : Stmt → Type
  | .enrolled _ => Bool
  | .insertNonce _ _ | .deleteRefreshToken _ _ | .rowsAffected _ => ℕ
  | _ => Unit

inductive Write
  | deleteNonces (rows : List RegistrationNonce)
  | insertNonce (row : RegistrationNonce)
  | putEnrollment (mac : GoString) (row : Enrollment)
  | deleteEnrollment (mac : GoString)
  | insertNode (mac : GoString) (row : Node)
  | insertRefreshToken (row : RefreshToken)
  | deleteRefreshTokens (rows : List RefreshToken)

def Tables.write (w : Write) (D : Tables) : Tables :=
  match w with
  | .deleteNonces rows =>
    { D with registrationNonces := D.registrationNonces.filter fun r => decide (r ∉ rows) }
  | .insertNonce row => { D with registrationNonces := D.registrationNonces ++ [row] }
  | .putEnrollment mac row =>
    { D with nodeEnrollments := Function.update D.nodeEnrollments mac (some row) }
  | .deleteEnrollment mac =>
    { D with nodeEnrollments := Function.update D.nodeEnrollments mac none }
  | .insertNode mac row => { D with nodes := Function.update D.nodes mac (some row) }
  | .insertRefreshToken row => { D with refreshTokens := D.refreshTokens ++ [row] }
  | .deleteRefreshTokens rows =>
    { D with refreshTokens := D.refreshTokens.filter fun r => decide (r ∉ rows) }

/-- One statement at the transaction's `CURRENT_TIMESTAMP`. Inserting a token of
an unknown node violates the foreign key. -/
def Tables.eval (now : Time) (D : Tables) : (q : Stmt) → Option (q.Reply × List Write)
  | .advisoryXactLock _ => some ((), [])
  | .enrolled mac =>
    some ((D.nodeEnrollments mac).any fun e => decide (now < e.expiresAt), [])
  | .deleteExpiredNonces =>
    some ((), [.deleteNonces (D.registrationNonces.filter fun r => decide (r.expiresAt < now))])
  | .insertNonce hash expiresAt =>
    if D.registrationNonces.any fun r => r.nonceHash = hash then some ((0 : ℕ), [])
    else some ((1 : ℕ), [.insertNonce ⟨hash, expiresAt⟩])
  | .upsertEnrollment mac expiresAt => some ((), [.putEnrollment mac ⟨now, expiresAt⟩])
  | .insertNode mac =>
    match D.nodes mac with
    | none => some ((), [.insertNode mac ⟨mac, ascii "enrolled"⟩])
    | some _ => some ((), [])
  | .insertRefreshToken mac hash expiresAt =>
    match D.nodes mac with
    | none => none
    | some _ => some ((), [.insertRefreshToken ⟨some mac, hash, expiresAt⟩])
  | .deleteRefreshToken mac hash =>
    let rows := (D.tokensOf mac).filter fun r =>
      r.tokenHash = hash && decide (now < r.expiresAt)
    some (rows.length, [.deleteRefreshTokens rows])
  | .deleteRefreshTokens mac => some ((), [.deleteRefreshTokens (D.tokensOf mac)])
  | .extendEnrollment mac expiresAt =>
    match D.nodeEnrollments mac with
    | none => some ((), [.putEnrollment mac ⟨now, expiresAt⟩])
    | some e => some ((), [.putEnrollment mac { e with expiresAt := max e.expiresAt expiresAt }])
  | .deleteEnrollment mac => some ((), [.deleteEnrollment mac])
  | .rowsAffected n => some (n, [])

inductive LockKey
  | advisory (key : ℤ)
  /-- The primary-key entry of a nonce; a second writer of it waits. -/
  | nonce (hash : GoString)
  deriving DecidableEq

/-- Digest functions of the Go and PostgreSQL libraries. -/
structure Digests where
  sha256 : GoString → GoString
  hashtextextended : GoString → ℤ → ℤ

/-- Locks a statement holds until its transaction ends. Statements on tokens,
enrollments and nodes run under the advisory lock of their node. -/
def locks (H : Digests) (now : Time) (D : Tables) : Stmt → List LockKey
  | .advisoryXactLock name => [.advisory (H.hashtextextended name 0)]
  | .deleteExpiredNonces =>
    (D.registrationNonces.filter fun r => decide (r.expiresAt < now)).map fun r => .nonce r.nonceHash
  | .insertNonce hash _ => [.nonce hash]
  | _ => []

abbrev sql (H : Digests) : Language where
  Store := Tables
  Stmt := Stmt
  Reply := Stmt.Reply
  Write := Write
  LockKey := LockKey
  locks := locks H
  eval := Tables.eval
  write := Tables.write

instance (H : Digests) : DecidableEq (sql H).LockKey := inferInstanceAs (DecidableEq LockKey)

/-! ### The part of one node -/

/-- What the store holds about one node, apart from nonces. -/
structure NodeRows where
  node : Option Node
  tokens : List RefreshToken
  enrollment : Option Enrollment

def Tables.nodeRows (mac : GoString) (D : Tables) : NodeRows :=
  ⟨D.nodes mac, D.tokensOf mac, D.nodeEnrollments mac⟩

@[simp] theorem Tables.nodeRows_tokens (mac : GoString) (D : Tables) :
    (D.nodeRows mac).tokens = D.tokensOf mac := rfl

@[simp] theorem Tables.nodeRows_enrollment (mac : GoString) (D : Tables) :
    (D.nodeRows mac).enrollment = D.nodeEnrollments mac := rfl

/-- How a write acts on the rows of node `k`. -/
def NodeRows.write (k : GoString) (w : Write) (p : NodeRows) : NodeRows :=
  match w with
  | .deleteNonces _ | .insertNonce _ => p
  | .putEnrollment mac row => if k = mac then { p with enrollment := some row } else p
  | .deleteEnrollment mac => if k = mac then { p with enrollment := none } else p
  | .insertNode mac row => if k = mac then { p with node := some row } else p
  | .insertRefreshToken row =>
    if row.macAddress = some k then { p with tokens := p.tokens ++ [row] } else p
  | .deleteRefreshTokens rows => { p with tokens := p.tokens.filter fun r => decide (r ∉ rows) }

theorem nodeRows_write (k : GoString) (w : Write) (D : Tables) :
    (D.write w).nodeRows k = (D.nodeRows k).write k w := by
  cases w with
  | deleteNonces | insertNonce => rfl
  | putEnrollment mac row | deleteEnrollment mac | insertNode mac row =>
    by_cases h : k = mac <;>
      simp [Tables.write, Tables.nodeRows, NodeRows.write, Tables.tokensOf, h]
  | insertRefreshToken row =>
    by_cases h : row.macAddress = some k <;>
      simp [Tables.write, Tables.nodeRows, NodeRows.write, Tables.tokensOf, List.filter_append, h]
  | deleteRefreshTokens rows =>
    simp [Tables.write, Tables.nodeRows, NodeRows.write, Tables.tokensOf, List.filter_filter,
      Bool.and_comm]

theorem write_congr {k : GoString} {D E : Tables} (w : Write)
    (h : D.nodeRows k = E.nodeRows k) : (D.write w).nodeRows k = (E.write w).nodeRows k := by
  rw [nodeRows_write, nodeRows_write, h]

/-- The node a statement works on. -/
def Stmt.node : Stmt → Option GoString
  | .enrolled mac | .upsertEnrollment mac _ | .insertNode mac | .insertRefreshToken mac _ _
  | .deleteRefreshToken mac _ | .deleteRefreshTokens mac | .extendEnrollment mac _
  | .deleteEnrollment mac => some mac
  | .advisoryXactLock _ | .deleteExpiredNonces | .insertNonce _ _ | .rowsAffected _ => none

theorem eval_congr {k : GoString} {now : Time} {D E : Tables} {q : Stmt} (hq : q.node = some k)
    (h : D.nodeRows k = E.nodeRows k) : D.eval now q = E.eval now q := by
  simp only [Tables.nodeRows, NodeRows.mk.injEq] at h
  obtain ⟨hnode, htokens, henrollment⟩ := h
  cases q <;> simp only [Stmt.node, Option.some.injEq, reduceCtorEq] at hq <;> subst hq <;>
    simp only [Tables.eval, hnode, htokens, henrollment]

/-- The nodes whose rows a write changes. -/
def Write.Touches (k : GoString) : Write → Prop
  | .deleteNonces _ | .insertNonce _ => False
  | .putEnrollment mac _ | .deleteEnrollment mac | .insertNode mac _ => mac = k
  | .insertRefreshToken row => row.macAddress = some k
  | .deleteRefreshTokens rows => ∃ r ∈ rows, r.macAddress = some k

theorem nodeRows_write_of_not_touches {k : GoString} {w : Write} (h : ¬ w.Touches k)
    (E : Tables) : (E.write w).nodeRows k = E.nodeRows k := by
  rw [nodeRows_write]
  cases w with
  | deleteNonces | insertNonce => rfl
  | putEnrollment mac | deleteEnrollment mac | insertNode mac =>
    have hk : k ≠ mac := fun he => h he.symm
    simp [NodeRows.write, hk]
  | insertRefreshToken row =>
    have hk : row.macAddress ≠ some k := h
    simp [NodeRows.write, hk]
  | deleteRefreshTokens rows =>
    have hkeep : (E.tokensOf k).filter (fun r => decide (r ∉ rows)) = E.tokensOf k := by
      rw [List.filter_eq_self]
      intro r hr
      simp only [decide_eq_true_eq]
      intro hmem
      exact h ⟨r, hmem, (Tables.mem_tokensOf.mp hr).2⟩
    simp only [NodeRows.write, Tables.nodeRows, hkeep]

theorem eval_touches {k : GoString} {now : Time} {D : Tables} {q : Stmt} {r : q.Reply}
    {ws : List Write} {w : Write} (heval : D.eval now q = some (r, ws)) (hw : w ∈ ws)
    (ht : w.Touches k) : q.node = some k := by
  cases q with
  | advisoryXactLock | enrolled | rowsAffected =>
    cases heval
    cases hw
  | deleteExpiredNonces =>
    cases heval
    obtain rfl := List.mem_singleton.mp hw
    exact ht.elim
  | insertNonce hash expiresAt =>
    simp only [Tables.eval] at heval
    split at heval <;> cases heval
    · cases hw
    · obtain rfl := List.mem_singleton.mp hw
      exact ht.elim
  | upsertEnrollment mac | deleteEnrollment mac =>
    cases heval
    obtain rfl := List.mem_singleton.mp hw
    exact congrArg some ht
  | insertNode mac =>
    simp only [Tables.eval] at heval
    split at heval <;> cases heval
    · obtain rfl := List.mem_singleton.mp hw
      exact congrArg some ht
    · cases hw
  | insertRefreshToken mac =>
    simp only [Tables.eval] at heval
    split at heval <;> cases heval
    obtain rfl := List.mem_singleton.mp hw
    exact ht
  | extendEnrollment mac =>
    simp only [Tables.eval] at heval
    split at heval <;> cases heval <;> obtain rfl := List.mem_singleton.mp hw <;>
      exact congrArg some ht
  | deleteRefreshToken mac hash =>
    cases heval
    obtain rfl := List.mem_singleton.mp hw
    obtain ⟨row, hrow, hk⟩ := ht
    exact (Tables.mem_tokensOf.mp (List.mem_filter.mp hrow).1).2.symm.trans hk
  | deleteRefreshTokens mac =>
    cases heval
    obtain rfl := List.mem_singleton.mp hw
    obtain ⟨row, hrow, hk⟩ := ht
    exact (Tables.mem_tokensOf.mp hrow).2.symm.trans hk

/-- The rows of each node are a part of the store. -/
abbrev byNode (H : Digests) : Partition (sql H) where
  Key := GoString
  Part := NodeRows
  part := Tables.nodeRows
  scope := Stmt.node
  eval_congr := eval_congr
  write_congr := write_congr
  frame := fun heval hw hq => nodeRows_write_of_not_touches fun ht => hq (eval_touches heval hw ht)

end Patchli.Db
