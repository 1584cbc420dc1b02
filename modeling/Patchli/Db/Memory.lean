import Patchli.Db.Transactions
import Patchli.Foundation.Attempt

/-!
# The store without a database

Without a database `db.go` keeps enrollment claims and registration nonces in two
maps. The maps forget expired entries when they are looked at, the tables ignore or
delete them later; a caller cannot tell the two apart, unless it comes within the
microsecond of an expiry.
-/

namespace Patchli.Db

open Transaction

/-- The maps `memEnrollments` and `memNonces`. -/
structure Memory where
  enrollments : GoString → Option Time
  nonces : GoString → Option Time

namespace Memory

def empty : Memory := ⟨fun _ => none, fun _ => none⟩

/-- Delete the entries whose expiry the loop selects. -/
def prune (expired : Time → Bool) (entries : GoString → Option Time) : GoString → Option Time :=
  fun k => (entries k).filter fun exp => !expired exp

variable (H : Digests)

def consumeRegistrationNonce (now : Time) (nonce : GoString) (expiresAt : Time) (m : Memory) :
    Bool × Memory :=
  let hash := hashToken H nonce
  let nonces := prune (fun exp => decide (exp < now)) m.nonces
  match nonces hash with
  | some _ => (false, { m with nonces := nonces })
  | none => (true, { m with nonces := Function.update nonces hash (some expiresAt) })

/-- `consumeNow` is the reading taken while the nonce is consumed. -/
def enrollNode (now consumeNow : Time) (mac nonce : GoString) (nonceExpiresAt expiresAt : Time)
    (m : Memory) : Option DbError × Memory :=
  let m := { m with enrollments := prune (fun exp => !decide (now < exp)) m.enrollments }
  match m.enrollments mac with
  | some _ => (some .alreadyEnrolled, m)
  | none =>
    match consumeRegistrationNonce H consumeNow nonce nonceExpiresAt m with
    | (false, m) => (some .nonceUsed, m)
    | (true, m) =>
      (none, { m with enrollments := Function.update m.enrollments mac (some expiresAt) })

def revokeEnrollment (mac : GoString) (m : Memory) : Memory :=
  { m with enrollments := Function.update m.enrollments mac none }

end Memory

/-! ### Calls of either store -/

/-- The calls that both stores serve. -/
inductive StoreCall
  | enrollNode (mac nonce : GoString) (nonceExpiresAt : Time) (refreshToken : GoString)
    (expiresAt : Time)
  | revokeEnrollment (mac : GoString)
  | consumeRegistrationNonce (nonce : GoString) (expiresAt : Time)

/-- The returned error, and the boolean of `ConsumeRegistrationNonce`. -/
inductive Answer
  | err (e : Option (CallError DbError))
  | consumed (fresh : Bool) (e : Option (CallError DbError))
  deriving DecidableEq

variable (H : Digests)

/-- A call with `DB == nil`. -/
def Memory.serve (now : Time) (m : Memory) : StoreCall → Answer × Memory
  | .enrollNode mac nonce nonceExpiresAt _ expiresAt =>
    let (e, m) := m.enrollNode H now now mac nonce nonceExpiresAt expiresAt
    (.err (e.map .service), m)
  | .revokeEnrollment mac => (.err none, m.revokeEnrollment mac)
  | .consumeRegistrationNonce nonce expiresAt =>
    let (fresh, m) := m.consumeRegistrationNonce H now nonce expiresAt
    (.consumed fresh none, m)

variable {H} in
/-- A call with a database, whose clock reads whole microseconds. -/
def serve (f : Faults) (now : Time) (s : Session (sql H)) : StoreCall → Answer × Session (sql H)
  | .enrollNode mac nonce nonceExpiresAt refreshToken expiresAt =>
    let (out, s) := transact f (timestamptz now) (enrollNode H mac nonce
      (timestamptz nonceExpiresAt) refreshToken (timestamptz expiresAt)) s
    (.err out.err, s)
  | .revokeEnrollment mac =>
    let (out, s) := transact f (timestamptz now) (revokeEnrollment H mac) s
    (.err out.err, s)
  | .consumeRegistrationNonce nonce expiresAt =>
    match (consumeNonce H nonce (timestamptz expiresAt)).autocommit f (timestamptz now) s with
    | (some fresh, s) => (.consumed fresh none, s)
    | (none, s) => (.consumed false (some .driver), s)

/-- Lapsed for a column, or not yet, though by the clock it is the other way round. -/
def Blurred (s t : Time) : Prop := s < t ∧ timestamptz s = timestamptz t

instance (s t : Time) : Decidable (Blurred s t) := inferInstanceAs (Decidable (_ ∧ _))

/-- The tables tell this reading of a later call from the expiries of the call. -/
def StoreCall.Resolved (now : Time) : StoreCall → Prop
  | .enrollNode _ _ nonceExpiresAt _ expiresAt =>
    ¬ Blurred now expiresAt ∧ ¬ Blurred nonceExpiresAt now
  | .revokeEnrollment _ => True
  | .consumeRegistrationNonce _ expiresAt => ¬ Blurred expiresAt now

instance (now : Time) : ∀ c : StoreCall, Decidable (c.Resolved now)
  | .enrollNode _ _ _ _ _ => inferInstanceAs (Decidable (_ ∧ _))
  | .revokeEnrollment _ => isTrue trivial
  | .consumeRegistrationNonce _ _ => inferInstanceAs (Decidable (¬ _))

theorem timestamptz_lt_iff {s t : Time} (h : ¬ Blurred s t) :
    timestamptz s < timestamptz t ↔ s < t := by
  constructor
  · intro hlt
    by_contra hle
    exact absurd hlt (not_lt.mpr (timestamptz_mono (not_lt.mp hle)))
  · intro hlt
    exact lt_of_le_of_ne (timestamptz_mono hlt.le) fun heq => h ⟨hlt, heq⟩

theorem timestamptz_le_iff {s t : Time} (h : ¬ Blurred t s) :
    timestamptz s ≤ timestamptz t ↔ s ≤ t := by
  rw [← not_lt, timestamptz_lt_iff h, not_lt]

/-- The answers to calls made one at a time, each at its clock reading. -/
def answers {σ : Type} (serve : Time → σ → StoreCall → Answer × σ) :
    σ → List (Time × StoreCall) → List Answer
  | _, [] => []
  | s, (now, c) :: rest => (serve now s c).1 :: answers serve (serve now s c).2 rest


/-! ### What a call does -/

/-- Consuming a nonce forgets the lapsed ones and records a new one. -/
structure Consumes (now : Time) (hash : GoString) (expiresAt : Time) (D : Tables) (fresh : Bool)
    (D' : Tables) : Prop where
  nodes : D'.nodes = D.nodes
  enrollments : D'.nodeEnrollments = D.nodeEnrollments
  fresh_iff : fresh = true ↔ ∀ e, ⟨hash, e⟩ ∈ D.registrationNonces → e < now
  mem_nonces : ∀ row, row ∈ D'.registrationNonces ↔
    row ∈ D.registrationNonces ∧ now ≤ row.expiresAt ∨ fresh = true ∧ row = ⟨hash, expiresAt⟩

variable {H}

theorem mem_deleteNonces {D : Tables} {now : Time} {row : RegistrationNonce} :
    row ∈ (D.write (.deleteNonces
        (D.registrationNonces.filter fun r => decide (r.expiresAt < now)))).registrationNonces ↔
      row ∈ D.registrationNonces ∧ now ≤ row.expiresAt := by
  simp only [Tables.write, List.mem_filter, decide_eq_true_eq, not_and, not_lt]
  exact ⟨fun h => ⟨h.1, h.2 h.1⟩, fun h => ⟨h.1, fun _ => h.2⟩⟩

theorem nonceUsed_iff {D : Tables} {now : Time} {hash : GoString} :
    ((D.write (.deleteNonces (D.registrationNonces.filter fun r =>
        decide (r.expiresAt < now)))).registrationNonces.any fun r => decide (r.nonceHash = hash)) =
        false ↔ ∀ e, ⟨hash, e⟩ ∈ D.registrationNonces → e < now := by
  simp only [List.any_eq_false, decide_eq_true_eq, mem_deleteNonces]
  constructor
  · intro h e he
    by_contra hle
    exact h _ ⟨he, not_lt.mp hle⟩ rfl
  · rintro h ⟨k, e⟩ ⟨hr, hle⟩ rfl
    exact absurd (h e hr) (not_lt.mpr hle)

theorem consumeNonce_eval (now : Time) (hash : GoString) (expiresAt : Time) (D : Tables) :
    ∃ n ws, (D.write (.deleteNonces (D.registrationNonces.filter fun r =>
        decide (r.expiresAt < now)))).eval now (.insertNonce hash expiresAt) = some (n, ws) ∧
      Consumes now hash expiresAt D (n == 1) (overlay (L := sql H) ws (D.write (.deleteNonces
        (D.registrationNonces.filter fun r => decide (r.expiresAt < now))))) := by
  have hused : ((D.write (.deleteNonces (D.registrationNonces.filter fun r =>
      decide (r.expiresAt < now)))).registrationNonces.any fun r => decide (r.nonceHash = hash)) =
      false ↔ ∀ e, ⟨hash, e⟩ ∈ D.registrationNonces → e < now := nonceUsed_iff
  simp only [Tables.eval]
  split
  · rename_i h
    rw [h] at hused
    simp only [Bool.true_eq_false, false_iff] at hused
    refine ⟨0, [], rfl, rfl, rfl, by simp [hused], fun row => ?_⟩
    rw [overlay_nil, mem_deleteNonces]
    simp
  · rename_i h
    rw [Bool.not_eq_true] at h
    refine ⟨1, _, rfl, rfl, rfl, by simp [← hused, h], fun row => ?_⟩
    change row ∈ _ ++ [_] ↔ _
    rw [List.mem_append, mem_deleteNonces]
    simp

theorem consumeNonce_eq (nonce : GoString) (expiresAt : Time) : consumeNonce H nonce expiresAt =
    .stmt .deleteExpiredNonces fun _ =>
      .stmt (.insertNonce (hashToken H nonce) expiresAt) fun res =>
        .stmt (.rowsAffected res) fun n : ℕ => .ret (n == 1) := rfl

theorem consumeNonce_execute (now : Time) (nonce : GoString) (expiresAt : Time)
    (s : Session (sql H)) : ∃ fresh s',
      (consumeNonce H nonce expiresAt).execute reliable now s = (some fresh, s') ∧
      s'.store = s.store ∧ Consumes now (hashToken H nonce) expiresAt
        (overlay s.pending s.store) fresh (overlay s'.pending s'.store) := by
  obtain ⟨n, ws, heval, hconsumes⟩ :=
    consumeNonce_eval (H := H) now (hashToken H nonce) expiresAt (overlay s.pending s.store)
  rw [consumeNonce_eq, Prog.execute_reliable rfl,
    Prog.execute_reliable (by rw [overlay_append]; exact heval), Prog.execute_reliable rfl]
  refine ⟨n == 1, _, rfl, rfl, ?_⟩
  rw [overlay_append, overlay_append, overlay_append]
  exact hconsumes

theorem consumeNonce_autocommit (now : Time) (nonce : GoString) (expiresAt : Time)
    {s : Session (sql H)} (hs : s.pending = []) : ∃ fresh s',
      (consumeNonce H nonce expiresAt).autocommit reliable now s = (some fresh, s') ∧
      s'.pending = [] ∧
      Consumes now (hashToken H nonce) expiresAt s.store fresh s'.store := by
  obtain ⟨n, ws, heval, hconsumes⟩ :=
    consumeNonce_eval (H := H) now (hashToken H nonce) expiresAt s.store
  rw [consumeNonce_eq, Prog.autocommit_reliable rfl, Prog.autocommit_reliable (by
      simp only [Session.commit, Session.called, hs]; exact heval),
    Prog.autocommit_reliable rfl]
  refine ⟨n == 1, _, rfl, rfl, ?_⟩
  simp only [Session.commit, Session.called, hs]
  exact hconsumes

/-- What `EnrollNode` returns, and the store it leaves. -/
inductive EnrollReturns (now : Time) (mac hash : GoString) (nonceExpiresAt expiresAt : Time)
    (D : Tables) : Option DbError → Tables → Prop
  | alreadyEnrolled {row} (hclaim : D.nodeEnrollments mac = some row)
    (hlive : now < row.expiresAt) :
    EnrollReturns now mac hash nonceExpiresAt expiresAt D (some .alreadyEnrolled) D
  | nonceUsed {D₁} (hclaim : ∀ row, D.nodeEnrollments mac = some row → row.expiresAt ≤ now)
    (hnonce : Consumes now hash nonceExpiresAt D false D₁) :
    EnrollReturns now mac hash nonceExpiresAt expiresAt D (some .nonceUsed) D
  | enrolled {D₁ D'} (hclaim : ∀ row, D.nodeEnrollments mac = some row → row.expiresAt ≤ now)
    (hnonce : Consumes now hash nonceExpiresAt D true D₁)
    (henrollments : D'.nodeEnrollments =
      Function.update D.nodeEnrollments mac (some ⟨now, expiresAt⟩))
    (hnonces : D'.registrationNonces = D₁.registrationNonces) :
    EnrollReturns now mac hash nonceExpiresAt expiresAt D none D'

/-- Inserting the node gives the token something to refer to. -/
theorem insertNode_eval (now : Time) (mac : GoString) (D : Tables) : ∃ ws,
    D.eval now (.insertNode mac) = some ((), ws) ∧
      (∃ node, (overlay (L := sql H) ws D).nodes mac = some node) ∧
      (overlay (L := sql H) ws D).nodeEnrollments = D.nodeEnrollments ∧
      (overlay (L := sql H) ws D).registrationNonces = D.registrationNonces := by
  simp only [Tables.eval]
  split
  · exact ⟨_, rfl, ⟨_, Function.update_self ..⟩, rfl, rfl⟩
  · rename_i node hnode
    exact ⟨_, rfl, ⟨node, hnode⟩, rfl, rfl⟩

theorem enrollNode_writes (now : Time) (mac hash : GoString) (expiresAt : Time)
    (s : Session (sql H)) : ∃ s',
      (Prog.stmt (L := sql H) (.upsertEnrollment mac expiresAt) fun _ =>
        .stmt (.insertNode mac) fun _ => .stmt (.insertRefreshToken mac hash expiresAt) fun _ =>
          .ret (Except.ok () : Except DbError Unit)).execute reliable now s = (some (.ok ()), s') ∧
      s'.store = s.store ∧
      (overlay s'.pending s.store).nodeEnrollments =
        Function.update (overlay s.pending s.store).nodeEnrollments mac (some ⟨now, expiresAt⟩) ∧
      (overlay s'.pending s.store).registrationNonces =
        (overlay s.pending s.store).registrationNonces := by
  obtain ⟨ws, heval, ⟨node, hnode⟩, henrollments, hnonces⟩ := insertNode_eval (H := H) now mac
    ((overlay s.pending s.store).write (.putEnrollment mac ⟨now, expiresAt⟩))
  have htoken : Tables.eval now (overlay (L := sql H) ws ((overlay s.pending s.store).write
      (.putEnrollment mac ⟨now, expiresAt⟩))) (.insertRefreshToken mac hash expiresAt) =
      some ((), [.insertRefreshToken ⟨some mac, hash, expiresAt⟩]) := by
    simp only [Tables.eval, hnode]
  rw [Prog.execute_reliable rfl, Prog.execute_reliable (by rw [overlay_append]; exact heval),
    Prog.execute_reliable (by rw [overlay_append, overlay_append]; exact htoken)]
  refine ⟨_, rfl, rfl, ?_, ?_⟩
  · rw [overlay_append, overlay_append, overlay_append]
    exact henrollments
  · rw [overlay_append, overlay_append, overlay_append]
    exact hnonces

theorem enrollNode_eq (mac nonce : GoString) (nonceExpiresAt : Time) (refreshToken : GoString)
    (expiresAt : Time) : enrollNode H mac nonce nonceExpiresAt refreshToken expiresAt =
      .stmt (.advisoryXactLock (lockName mac)) fun _ => .stmt (.enrolled mac) fun enrolled : Bool =>
        if enrolled then .ret (.error .alreadyEnrolled)
        else consumeNonce H nonce nonceExpiresAt >>= fun fresh =>
          if !fresh then .ret (.error .nonceUsed)
          else .stmt (.upsertEnrollment mac expiresAt) fun _ => .stmt (.insertNode mac) fun _ =>
            .stmt (.insertRefreshToken mac (hashToken H refreshToken) expiresAt) fun _ =>
              .ret (.ok ()) := rfl

theorem enrollNode_transact (now : Time) (mac nonce : GoString) (nonceExpiresAt : Time)
    (refreshToken : GoString) (expiresAt : Time) (s : Session (sql H)) : ∃ e out s',
      transact reliable now (enrollNode H mac nonce nonceExpiresAt refreshToken expiresAt) s =
        (out, s') ∧ out.err = e.map .service ∧ s'.pending = [] ∧
      EnrollReturns now mac (hashToken H nonce) nonceExpiresAt expiresAt s.store e s'.store := by
  by_cases hlive : ∃ row, s.store.nodeEnrollments mac = some row ∧ now < row.expiresAt
  · obtain ⟨row, hclaim, hlt⟩ := hlive
    have hprobe : s.store.eval now (.enrolled mac) = some (true, []) := by
      simp [Tables.eval, hclaim, hlt]
    refine ⟨some .alreadyEnrolled, _, _, transact_error (t := ⟨s.store, [], s.calls + 3⟩) ?_,
      rfl, rfl, .alreadyEnrolled hclaim hlt⟩
    · rw [enrollNode_eq, Prog.execute_reliable rfl, Prog.execute_reliable (by exact hprobe)]
      rfl
  · have hclaim : ∀ row, s.store.nodeEnrollments mac = some row → row.expiresAt ≤ now :=
      fun row hrow => not_lt.mp fun hlt => hlive ⟨row, hrow, hlt⟩
    have hprobe : s.store.eval now (.enrolled mac) = some (false, []) := by
      cases hrow : s.store.nodeEnrollments mac with
      | none => simp [Tables.eval, hrow]
      | some row => simp [Tables.eval, hrow, hclaim row hrow]
    obtain ⟨fresh, s₁, hexec, hstore, hnonce⟩ := consumeNonce_execute now nonce nonceExpiresAt
      (⟨s.store, [], s.calls + 3⟩ : Session (sql H))
    cases fresh with
    | false =>
      refine ⟨some .nonceUsed, _, _, transact_error (t := s₁) ?_, rfl, rfl, ?_⟩
      · rw [enrollNode_eq, Prog.execute_reliable rfl, Prog.execute_reliable (by exact hprobe)]
        exact Prog.execute_bind hexec
      · simp only [Session.rollback_store, Session.called_store, hstore]
        exact .nonceUsed hclaim hnonce
    | true =>
      obtain ⟨s₂, hwrites, hstore₂, henrollments, hnonces⟩ :=
        enrollNode_writes now mac (hashToken H refreshToken) expiresAt s₁
      refine ⟨none, _, _, transact_ok (t := s₂) (a := ()) ?_, rfl, rfl,
        .enrolled hclaim hnonce ?_ ?_⟩
      · rw [enrollNode_eq, Prog.execute_reliable rfl, Prog.execute_reliable (by exact hprobe)]
        exact (Prog.execute_bind hexec).trans hwrites
      · have hkeep := hnonce.enrollments
        rw [hstore] at henrollments hkeep
        simp only [Session.commit, Session.called, hstore₂, hstore, henrollments]
        exact congrArg (Function.update · mac _) hkeep
      · rw [hstore] at hnonces
        simp only [Session.commit, Session.called, hstore₂, hstore, hnonces]

theorem revokeEnrollment_transact (now : Time) (mac : GoString) (s : Session (sql H)) : ∃ s',
    transact reliable now (revokeEnrollment H mac) s = (⟨some (), none⟩, s') ∧
      s'.pending = [] ∧
      s'.store.nodeEnrollments = Function.update s.store.nodeEnrollments mac none ∧
      s'.store.registrationNonces = s.store.registrationNonces := by
  have hexec : (revokeEnrollment H mac).execute reliable now s.begin = (some (.ok ()), ⟨s.store,
      [.deleteRefreshTokens (s.store.tokensOf mac), .deleteEnrollment mac], s.calls + 4⟩) := rfl
  exact ⟨_, transact_ok hexec, rfl, rfl, rfl⟩

namespace Memory

/-! ### The two stores agree -/

@[simp] theorem prune_eq_some {expired : Time → Bool} {entries : GoString → Option Time}
    {k : GoString} {e : Time} :
    prune expired entries k = some e ↔ entries k = some e ∧ expired e = false := by
  simp [prune, Option.filter_eq_some_iff]

/-- The maps and the tables have the same live entries at each of the readings `ts`. A claim
ends at its expiry, a nonce is kept through it. -/
structure Agrees (ts : List Time) (m : Memory) (D : Tables) : Prop where
  claims : ∀ t ∈ ts, ∀ mac, (∃ e, m.enrollments mac = some e ∧ t < e) ↔
    ∃ row, D.nodeEnrollments mac = some row ∧ timestamptz t < row.expiresAt
  nonces : ∀ t ∈ ts, ∀ hash, (∃ e, m.nonces hash = some e ∧ t ≤ e) ↔
    ∃ e, ⟨hash, e⟩ ∈ D.registrationNonces ∧ timestamptz t ≤ e

variable {m : Memory} {D D' : Tables} {now : Time} {ts : List Time}

theorem Agrees.tail (h : Agrees (now :: ts) m D) : Agrees ts m D :=
  ⟨fun t ht => h.claims t (List.mem_cons_of_mem _ ht),
    fun t ht => h.nonces t (List.mem_cons_of_mem _ ht)⟩

/-- What lapsed by `now` is not missed later. -/
theorem exists_prune_claim {t : Time} (hle : now ≤ t) (mac : GoString) :
    (∃ e, prune (fun exp => !decide (now < exp)) m.enrollments mac = some e ∧ t < e) ↔
      ∃ e, m.enrollments mac = some e ∧ t < e := by
  refine exists_congr fun e => ?_
  rw [prune_eq_some, and_right_comm, and_iff_left_iff_imp]
  rintro ⟨-, hlt⟩
  simpa using hle.trans_lt hlt

theorem exists_prune_nonce {t : Time} (hle : now ≤ t) (hash : GoString) :
    (∃ e, prune (fun exp => decide (exp < now)) m.nonces hash = some e ∧ t ≤ e) ↔
      ∃ e, m.nonces hash = some e ∧ t ≤ e := by
  refine exists_congr fun e => ?_
  rw [prune_eq_some, and_right_comm, and_iff_left_iff_imp]
  rintro ⟨-, hte⟩
  simpa using hle.trans hte

theorem Agrees.pruned (h : Agrees ts m D) (hle : ∀ t ∈ ts, now ≤ t) :
    Agrees ts { m with enrollments := prune (fun exp => !decide (now < exp)) m.enrollments } D :=
  ⟨fun t ht mac => (exists_prune_claim (hle t ht) mac).trans (h.claims t ht mac), h.nonces⟩

theorem Agrees.consume (h : Agrees (now :: ts) m D) (hle : ∀ t ∈ ts, now ≤ t) {nonce : GoString}
    {expiresAt : Time} (hresolved : ∀ t ∈ ts, ¬ Blurred expiresAt t) {fresh : Bool}
    (hD : Consumes (timestamptz now) (hashToken H nonce) (timestamptz expiresAt) D fresh D') :
    (m.consumeRegistrationNonce H now nonce expiresAt).1 = fresh ∧
      Agrees ts (m.consumeRegistrationNonce H now nonce expiresAt).2 D' := by
  have hfresh : fresh = true ↔
      prune (fun exp => decide (exp < now)) m.nonces (hashToken H nonce) = none := by
    have hlive := h.nonces now List.mem_cons_self (hashToken H nonce)
    rw [hD.fresh_iff, Option.eq_none_iff_forall_ne_some]
    constructor
    · intro hlapsed e he
      obtain ⟨hheld, hkept⟩ := prune_eq_some.mp he
      obtain ⟨e', hmem, hle'⟩ := hlive.mp ⟨e, hheld, by simpa using hkept⟩
      exact absurd (hlapsed e' hmem) (not_lt.mpr hle')
    · intro hnone e he
      by_contra hlt
      obtain ⟨e', hheld, hle'⟩ := hlive.mpr ⟨e, he, not_lt.mp hlt⟩
      exact hnone e' (prune_eq_some.mpr ⟨hheld, by simpa using hle'⟩)
  have hclaims : ∀ t ∈ ts, ∀ mac, (∃ e, m.enrollments mac = some e ∧ t < e) ↔
      ∃ row, D'.nodeEnrollments mac = some row ∧ timestamptz t < row.expiresAt := by
    rw [hD.enrollments]
    exact h.tail.claims
  -- the entries of both stores that are older than this call
  have hold (t : Time) (ht : t ∈ ts) (hash : GoString) :
      (∃ e, prune (fun exp => decide (exp < now)) m.nonces hash = some e ∧ t ≤ e) ↔
        ∃ e, (⟨hash, e⟩ ∈ D.registrationNonces ∧ timestamptz now ≤ e) ∧ timestamptz t ≤ e := by
    rw [exists_prune_nonce (hle t ht), h.tail.nonces t ht]
    refine exists_congr fun e => ?_
    rw [and_right_comm, iff_self_and]
    exact fun hmem => (timestamptz_mono (hle t ht)).trans hmem.2
  cases hp : prune (fun exp => decide (exp < now)) m.nonces (hashToken H nonce) with
  | some e =>
    obtain rfl : fresh = false := by simpa [hp] using hfresh
    simp only [consumeRegistrationNonce, hp, true_and]
    refine ⟨hclaims, fun t ht hash => ?_⟩
    rw [hold t ht]
    simp [hD.mem_nonces]
  | none =>
    obtain rfl := hfresh.mpr hp
    simp only [consumeRegistrationNonce, hp, true_and]
    refine ⟨hclaims, fun t ht hash => ?_⟩
    by_cases hhash : hash = hashToken H nonce
    · subst hhash
      have hgone (e : Time) : ¬ (⟨hashToken H nonce, e⟩ ∈ D.registrationNonces ∧
          timestamptz now ≤ e) := fun hmem =>
        absurd (hD.fresh_iff.mp rfl e hmem.1) (not_lt.mpr hmem.2)
      simp [hD.mem_nonces, hgone, timestamptz_le_iff (hresolved t ht)]
    · simpa [hD.mem_nonces, hhash] using hold t ht hash

theorem Agrees.enroll (h : Agrees (now :: ts) m D) (hle : ∀ t ∈ ts, now ≤ t)
    {mac nonce : GoString} {nonceExpiresAt expiresAt : Time}
    (hclaim : ∀ t ∈ ts, ¬ Blurred t expiresAt) (hnonce : ∀ t ∈ ts, ¬ Blurred nonceExpiresAt t)
    {e : Option DbError} (hD : EnrollReturns (timestamptz now) mac (hashToken H nonce)
      (timestamptz nonceExpiresAt) (timestamptz expiresAt) D e D') :
    (m.enrollNode H now now mac nonce nonceExpiresAt expiresAt).1 = e ∧
      Agrees ts (m.enrollNode H now now mac nonce nonceExpiresAt expiresAt).2 D' := by
  have hpruned := h.pruned (List.forall_mem_cons.mpr ⟨le_refl now, hle⟩)
  have hlive := h.claims now List.mem_cons_self mac
  have hnone (hlapsed : ∀ row, D.nodeEnrollments mac = some row →
      row.expiresAt ≤ timestamptz now) :
      prune (fun exp => !decide (now < exp)) m.enrollments mac = none := by
    rw [Option.eq_none_iff_forall_ne_some]
    intro x hx
    obtain ⟨hheld, hkept⟩ := prune_eq_some.mp hx
    obtain ⟨row, hrow, hlt⟩ := hlive.mp ⟨x, hheld, by simpa using hkept⟩
    exact absurd hlt (not_lt.mpr (hlapsed row hrow))
  cases hD with
  | @alreadyEnrolled row hrow hlt =>
    obtain ⟨x, hheld, hx⟩ := hlive.mpr ⟨row, hrow, hlt⟩
    have hkept : prune (fun exp => !decide (now < exp)) m.enrollments mac = some x :=
      prune_eq_some.mpr ⟨hheld, by simpa using hx⟩
    simp only [enrollNode, hkept, true_and]
    exact hpruned.tail
  | nonceUsed hlapsed hconsumes =>
    obtain ⟨hfresh, hagrees⟩ := hpruned.consume hle hnonce hconsumes
    rcases hc : consumeRegistrationNonce H now nonce nonceExpiresAt { m with
      enrollments := prune (fun exp => !decide (now < exp)) m.enrollments } with ⟨fresh, m'⟩
    rw [hc] at hfresh hagrees
    obtain rfl : fresh = false := hfresh
    simp only [enrollNode, hnone hlapsed, hc, true_and]
    refine ⟨?_, fun t ht hash => ?_⟩
    · rw [← hconsumes.enrollments]
      exact hagrees.claims
    -- the tables roll the deletion back, but what it deleted has lapsed
    · rw [hagrees.nonces t ht]
      refine exists_congr fun x => ?_
      simp only [hconsumes.mem_nonces, Bool.false_eq_true, false_and, or_false]
      rw [and_right_comm, and_iff_left_iff_imp]
      exact fun hmem => (timestamptz_mono (hle t ht)).trans hmem.2
  | enrolled hlapsed hconsumes henrollments hnonces =>
    obtain ⟨hfresh, hagrees⟩ := hpruned.consume hle hnonce hconsumes
    rcases hc : consumeRegistrationNonce H now nonce nonceExpiresAt { m with
      enrollments := prune (fun exp => !decide (now < exp)) m.enrollments } with ⟨fresh, m'⟩
    rw [hc] at hfresh hagrees
    obtain rfl : fresh = true := hfresh
    simp only [enrollNode, hnone hlapsed, hc, true_and]
    refine ⟨fun t ht k => ?_, fun t ht hash => ?_⟩
    · rw [henrollments]
      by_cases hk : k = mac
      · simp [hk, timestamptz_lt_iff (hclaim t ht)]
      · rw [← hconsumes.enrollments]
        simpa [hk] using hagrees.claims t ht k
    · rw [hnonces]
      exact hagrees.nonces t ht hash

theorem Agrees.revoke (h : Agrees ts m D) {mac : GoString}
    (henrollments : D'.nodeEnrollments = Function.update D.nodeEnrollments mac none)
    (hnonces : D'.registrationNonces = D.registrationNonces) :
    Agrees ts (m.revokeEnrollment mac) D' := by
  refine ⟨fun t ht k => ?_, fun t ht hash => ?_⟩
  · rw [henrollments, revokeEnrollment]
    by_cases hk : k = mac
    · simp [hk]
    · simpa [hk] using h.claims t ht k
  · rw [hnonces]
    exact h.nonces t ht hash

theorem serve_agrees (h : Agrees (now :: ts) m D) (hle : ∀ t ∈ ts, now ≤ t) {s : Session (sql H)}
    (hs : s.store = D) (hpending : s.pending = []) (c : StoreCall)
    (hresolved : ∀ t ∈ ts, c.Resolved t) :
    (m.serve H now c).1 = (Db.serve reliable now s c).1 ∧
      Agrees ts (m.serve H now c).2 (Db.serve reliable now s c).2.store ∧
      (Db.serve reliable now s c).2.pending = [] := by
  subst hs
  cases c with
  | enrollNode mac nonce nonceExpiresAt refreshToken expiresAt =>
    obtain ⟨e, out, s', htransact, herr, hclosed, henrolls⟩ :=
      enrollNode_transact (timestamptz now) mac nonce (timestamptz nonceExpiresAt) refreshToken
        (timestamptz expiresAt) s
    obtain ⟨hsame, hagrees⟩ := h.enroll hle (fun t ht => (hresolved t ht).1)
      (fun t ht => (hresolved t ht).2) henrolls
    simp only [Memory.serve, Db.serve, htransact, hsame, herr]
    exact ⟨trivial, hagrees, hclosed⟩
  | revokeEnrollment mac =>
    obtain ⟨s', htransact, hclosed, henrollments, hnonces⟩ :=
      revokeEnrollment_transact (timestamptz now) mac s
    simp only [Memory.serve, Db.serve, htransact]
    exact ⟨trivial, h.tail.revoke henrollments hnonces, hclosed⟩
  | consumeRegistrationNonce nonce expiresAt =>
    obtain ⟨fresh, s', hauto, hclosed, hconsumes⟩ :=
      consumeNonce_autocommit (timestamptz now) nonce (timestamptz expiresAt) hpending
    obtain ⟨hsame, hagrees⟩ := h.consume hle hresolved hconsumes
    simp only [Memory.serve, Db.serve, hauto, hsame]
    exact ⟨trivial, hagrees, hclosed⟩

theorem answers_agree {calls : List (Time × StoreCall)} (h : Agrees (calls.map Prod.fst) m D)
    {s : Session (sql H)} (hs : s.store = D) (hpending : s.pending = [])
    (hclock : (calls.map Prod.fst).Pairwise (· ≤ ·))
    (hresolved : calls.Pairwise fun c d => c.2.Resolved d.1) :
    answers (Memory.serve H) m calls = answers (Db.serve reliable) s calls := by
  induction calls generalizing m D s with
  | nil => rfl
  | cons c rest ih =>
    obtain ⟨now, c⟩ := c
    rw [List.map_cons] at h hclock
    rw [List.pairwise_cons] at hclock hresolved
    have hlater : ∀ t ∈ rest.map Prod.fst, c.Resolved t := by
      intro t ht
      obtain ⟨d, hd, rfl⟩ := List.mem_map.mp ht
      exact hresolved.1 d hd
    obtain ⟨hsame, hagrees, hclosed⟩ := serve_agrees h hclock.1 hs hpending c hlater
    rw [answers, answers, hsame]
    exact congrArg _ (ih hagrees rfl hclosed hclock.2 hresolved.2)

end Memory

/-- Calls made one at a time with a clock that never goes back get the same answers from
the maps as from the tables, unless a reading is taken for an expiry that it misses by less
than a microsecond. -/
theorem memory_refines_sql (H : Digests) (calls : List (Time × StoreCall))
    (hclock : (calls.map Prod.fst).Pairwise (· ≤ ·))
    (hresolved : calls.Pairwise fun c d => c.2.Resolved d.1) :
    answers (Memory.serve H) .empty calls =
      answers (serve (H := H) reliable) ⟨.empty, [], 0⟩ calls := by
  have hagrees : Memory.Agrees (calls.map Prod.fst) .empty .empty :=
    ⟨by simp [Memory.empty, Tables.empty], by simp [Memory.empty, Tables.empty]⟩
  exact Memory.answers_agree hagrees rfl rfl hclock hresolved

/-- The digests of two nonces, and the lock key of node `aa`. -/
private def nonceDigests : Digests where
  sha256 := GoString.tabulate [
    (ascii "memory-enroll-1", [
      108, 18, 73, 189, 101, 164, 39, 56, 44, 168, 134, 213, 220, 252, 228, 121,
      157, 96, 143, 43, 73, 175, 143, 123, 177, 101, 244, 78, 10, 219, 12, 59]),
    (ascii "memory-enroll-2", [
      20, 126, 66, 205, 121, 221, 112, 201, 164, 177, 203, 249, 150, 148, 103, 232,
      1, 113, 94, 140, 238, 33, 70, 100, 196, 123, 111, 247, 76, 227, 7, 255])]
  hashtextextended _ _ := 4434922278757143110

/-- A nonce is used through its expiry, a claim is free from its expiry on. -/
theorem memory_refines_sql_expiry :
    answers (serve (H := nonceDigests) reliable) ⟨.empty, [], 0⟩ [
      (0, .enrollNode (ascii "aa") (ascii "memory-enroll-1") (10 * second) (ascii "token")
        (20 * second + 500)),
      (10 * second, .consumeRegistrationNonce (ascii "memory-enroll-1") (30 * second)),
      (20 * second + 700, .enrollNode (ascii "aa") (ascii "memory-enroll-2") (30 * second)
        (ascii "token-2") (40 * second))] =
    [.err none, .consumed false none, .err none] :=
  (memory_refines_sql nonceDigests _ (by decide) (by decide)).symm.trans (by decide +kernel)

/-- A claim until 500 ns after a whole second, and an attempt 200 ns before its end. -/
private def beforeExpiry : List (Time × StoreCall) := [
  (0, .enrollNode (ascii "aa") (ascii "memory-enroll-1") (10 * second) (ascii "token")
    (10 * second + 500)),
  (10 * second + 300, .enrollNode (ascii "aa") (ascii "memory-enroll-2") (20 * second)
    (ascii "token-2") (20 * second))]

/-- A nonce until 500 ns after a whole second, and an attempt 200 ns after its end. -/
private def afterExpiry : List (Time × StoreCall) := [
  (0, .consumeRegistrationNonce (ascii "memory-enroll-1") (10 * second + 500)),
  (10 * second + 700, .consumeRegistrationNonce (ascii "memory-enroll-1") (20 * second))]

/-- The tables have lost the claim, and still have the nonce. -/
theorem memory_differs_sql :
    (beforeExpiry.map Prod.fst).Pairwise (· ≤ ·) ∧
      answers (Memory.serve nonceDigests) .empty beforeExpiry =
        [.err none, .err (some (.service .alreadyEnrolled))] ∧
      answers (serve (H := nonceDigests) reliable) ⟨.empty, [], 0⟩ beforeExpiry =
        [.err none, .err none] ∧
      (afterExpiry.map Prod.fst).Pairwise (· ≤ ·) ∧
      answers (Memory.serve nonceDigests) .empty afterExpiry =
        [.consumed true none, .consumed true none] ∧
      answers (serve (H := nonceDigests) reliable) ⟨.empty, [], 0⟩ afterExpiry =
        [.consumed true none, .consumed false none] := by
  decide +kernel

end Patchli.Db
