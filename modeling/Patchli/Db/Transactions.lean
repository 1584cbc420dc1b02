import Patchli.Db.Schema

/-!
# Enrollment, rotation and revocation

The three transactions of `db.go`, statement by statement, and what each of them
does to the rows of its node when it commits.
-/

namespace Patchli.Db

open Transaction

variable (H : Digests)

def hashToken (token : GoString) : GoString := (H.sha256 token).hexEncode

theorem hashToken_injective (hsha : Function.Injective H.sha256) :
    Function.Injective (hashToken H) :=
  GoString.hexEncode_injective.comp hsha

inductive DbError
  | alreadyEnrolled
  | nonceUsed
  deriving DecidableEq

/-- A computation on `*sql.Tx`. -/
abbrev OnTx (α : Type) := Prog (sql H) α

variable {H} in
/-- `tx.Exec` or `tx.QueryRow`. -/
def run (q : Stmt) : OnTx H q.Reply := Prog.exec (L := sql H) q

/-- The lock name of a node. -/
def lockName (mac : GoString) : GoString := ascii "patchli-node:" ++ mac

def lockNode (mac : GoString) : OnTx H Unit := run (.advisoryXactLock (lockName mac))

/-- Run `fn` in a transaction holding the node's advisory lock. -/
def withNodeLock {α : Type} (mac : GoString) (fn : OnTx H (Except DbError α)) :
    OnTx H (Except DbError α) := do
  lockNode H mac
  fn

def consumeNonce (nonce : GoString) (expiresAt : Time) : OnTx H Bool := do
  let _ ← (run .deleteExpiredNonces : OnTx H Unit)
  let res ← (run (.insertNonce (hashToken H nonce) expiresAt) : OnTx H ℕ)
  let n ← (run (.rowsAffected res) : OnTx H ℕ)
  return n == 1

def enrollNode (mac nonce : GoString) (nonceExpiresAt : Time) (refreshToken : GoString)
    (expiresAt : Time) : OnTx H (Except DbError Unit) :=
  withNodeLock H mac do
    let enrolled ← (run (.enrolled mac) : OnTx H Bool)
    if enrolled then
      return .error .alreadyEnrolled
    else
      let fresh ← consumeNonce H nonce nonceExpiresAt
      if !fresh then
        return .error .nonceUsed
      else
        let _ ← (run (.upsertEnrollment mac expiresAt) : OnTx H Unit)
        -- refresh_tokens references nodes
        let _ ← (run (.insertNode mac) : OnTx H Unit)
        let _ ← (run (.insertRefreshToken mac (hashToken H refreshToken) expiresAt) : OnTx H Unit)
        return .ok ()

/-- Reports false, and revokes every token of the node, if the old token is not
stored. -/
def rotateRefreshToken (mac oldToken newToken : GoString) (expiresAt : Time) :
    OnTx H (Except DbError Bool) :=
  withNodeLock H mac do
    let res ← (run (.deleteRefreshToken mac (hashToken H oldToken)) : OnTx H ℕ)
    let n ← (run (.rowsAffected res) : OnTx H ℕ)
    if n = 0 then
      let _ ← (run (.deleteRefreshTokens mac) : OnTx H Unit)
      return .ok false
    else
      let _ ← (run (.insertRefreshToken mac (hashToken H newToken) expiresAt) : OnTx H Unit)
      -- the enrollment stays claimed for as long as the node holds a token
      let _ ← (run (.extendEnrollment mac expiresAt) : OnTx H Unit)
      return .ok true

def revokeEnrollment (mac : GoString) : OnTx H (Except DbError Unit) :=
  withNodeLock H mac do
    let _ ← (run (.deleteRefreshTokens mac) : OnTx H Unit)
    let _ ← (run (.deleteEnrollment mac) : OnTx H Unit)
    return .ok ()

inductive Call
  | enrollNode (mac nonce : GoString) (nonceExpiresAt : Time) (refreshToken : GoString)
    (expiresAt : Time)
  | rotateRefreshToken (mac oldToken newToken : GoString) (expiresAt : Time)
  | revokeEnrollment (mac : GoString)
  deriving DecidableEq

def Call.mac : Call → GoString
  | .enrollNode mac _ _ _ _ | .rotateRefreshToken mac _ _ _ | .revokeEnrollment mac => mac

/-- The first return value of a call whose error is nil. -/
inductive Returned
  | nil
  | rotated (ok : Bool)
  deriving DecidableEq

def body : Call → OnTx H (Except DbError Returned)
  | .enrollNode mac nonce nonceExpiresAt refreshToken expiresAt => do
    let r ← enrollNode H mac nonce nonceExpiresAt refreshToken expiresAt
    return r.map fun _ => .nil
  | .rotateRefreshToken mac oldToken newToken expiresAt => do
    let r ← rotateRefreshToken H mac oldToken newToken expiresAt
    return r.map .rotated
  | .revokeEnrollment mac => do
    let r ← revokeEnrollment H mac
    return r.map fun _ => .nil

abbrev service : Service (sql H) where
  Call := Call
  Result := Returned
  Error := DbError
  body := body H

def initial (H : Digests) (now : Time) (D : Tables) : State (service H) :=
  State.initial (service H) now D

abbrev step (H : Digests) : State (service H) → Action (service H) → Option (State (service H)) :=
  Transaction.step

/-! ### Every body works on its own node -/

variable {H}

theorem inside_run {k : GoString} {q : Stmt} (hq : q.node = none ∨ q.node = some k) :
    (run q : OnTx H q.Reply).Inside (byNode H) k :=
  ⟨hq, fun _ => trivial⟩

theorem inside_ret {α : Type} {k : GoString} (a : α) :
    (Prog.ret a : OnTx H α).Inside (byNode H) k := trivial

theorem withNodeLock_inside {α : Type} {mac : GoString} {fn : OnTx H (Except DbError α)}
    (hfn : fn.Inside (byNode H) mac) : (withNodeLock H mac fn).Inside (byNode H) mac :=
  (inside_run (Or.inl rfl)).bind fun _ => hfn

theorem consumeNonce_inside (k nonce : GoString) (expiresAt : Time) :
    (consumeNonce H nonce expiresAt).Inside (byNode H) k :=
  (inside_run (Or.inl rfl)).bind fun _ => (inside_run (Or.inl rfl)).bind fun _ =>
    (inside_run (Or.inl rfl)).bind fun _ => inside_ret _

theorem enrollNode_inside (mac nonce : GoString) (nonceExpiresAt : Time) (refreshToken : GoString)
    (expiresAt : Time) :
    (enrollNode H mac nonce nonceExpiresAt refreshToken expiresAt).Inside (byNode H) mac := by
  refine withNodeLock_inside ((inside_run (Or.inr rfl)).bind fun enrolled => ?_)
  split
  · exact inside_ret _
  · refine (consumeNonce_inside mac nonce nonceExpiresAt).bind fun fresh => ?_
    split
    · exact inside_ret _
    · exact (inside_run (Or.inr rfl)).bind fun _ => (inside_run (Or.inr rfl)).bind fun _ =>
        (inside_run (Or.inr rfl)).bind fun _ => inside_ret _

theorem rotateRefreshToken_inside (mac oldToken newToken : GoString) (expiresAt : Time) :
    (rotateRefreshToken H mac oldToken newToken expiresAt).Inside (byNode H) mac := by
  refine withNodeLock_inside ((inside_run (Or.inr rfl)).bind fun res =>
    (inside_run (Or.inl rfl)).bind fun n => ?_)
  split
  · exact (inside_run (Or.inr rfl)).bind fun _ => inside_ret _
  · exact (inside_run (Or.inr rfl)).bind fun _ => (inside_run (Or.inr rfl)).bind fun _ =>
      inside_ret _

theorem revokeEnrollment_inside (mac : GoString) :
    (revokeEnrollment H mac).Inside (byNode H) mac :=
  withNodeLock_inside ((inside_run (Or.inr rfl)).bind fun _ =>
    (inside_run (Or.inr rfl)).bind fun _ => inside_ret _)

theorem body_inside (c : Call) : (body H c).Inside (byNode H) c.mac := by
  cases c with
  | enrollNode mac nonce nonceExpiresAt refreshToken expiresAt =>
    exact (enrollNode_inside mac nonce nonceExpiresAt refreshToken expiresAt).bind
      fun _ => inside_ret _
  | rotateRefreshToken mac oldToken newToken expiresAt =>
    exact (rotateRefreshToken_inside mac oldToken newToken expiresAt).bind fun _ => inside_ret _
  | revokeEnrollment mac => exact (revokeEnrollment_inside mac).bind fun _ => inside_ret _

/-- Every body first takes the advisory lock of its node. -/
def guarded : Guarded (byNode H) (service H) where
  key := Call.mac
  lock := fun mac => .advisory (H.hashtextextended (lockName mac) 0)
  inside := body_inside
  locks_first := by
    intro c
    cases c <;> exact ⟨_, _, rfl, fun b D => List.mem_singleton.mpr rfl⟩

end Patchli.Db
