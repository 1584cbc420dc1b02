import Patchli.Db.Refinement
import Patchli.Ownership.Expiry
import Patchli.Ownership.Tokens

/-!
# Who owns a node

What holds in every run of `EnrollNode`, `RotateRefreshToken` and
`RevokeEnrollment` transactions, whatever their order and their clocks: claims
cover the stored tokens, a refresh token is redeemed once, and its reuse revokes
the node until the next enrollment.
-/

namespace Patchli.Db

open Transaction Ownership

variable {H : Digests}

/-! ### A schedule on one node -/

private def digest : GoString → GoString :=
  Equiv.swap (ascii "t0") [
      81, 47, 38, 173, 163, 195, 214, 52, 172, 60, 107, 18, 183, 179, 60, 181,
      11, 176, 150, 60, 63, 109, 153, 36, 36, 22, 25, 200, 78, 199, 143, 242] ∘
    Equiv.swap (ascii "t1") [
      98, 139, 73, 217, 109, 205, 233, 122, 67, 13, 212, 245, 151, 112, 88, 153,
      224, 154, 150, 143, 121, 52, 145, 228, 183, 4, 202, 227, 58, 64, 220, 2] ∘
    Equiv.swap (ascii "t2") [
      196, 68, 116, 3, 141, 69, 158, 64, 228, 113, 74, 254, 250, 123, 248, 218,
      233, 249, 131, 75, 34, 245, 232, 236, 29, 212, 52, 236, 182, 43, 81, 46]

/-- The digests of the names below, extended to a collision-free function. -/
private def digests : Digests := ⟨digest, fun _ _ => 4434922278757143110⟩

private theorem digest_injective : Function.Injective digests.sha256 :=
  (Equiv.injective _).comp ((Equiv.injective _).comp (Equiv.injective _))

private def node : GoString := ascii "aa"

private def emptyV5 : TablesV5 := ⟨fun _ => none, [], []⟩

private def enroll (token : GoString) (expiresAt : Time) : Call :=
  .enrollNode node token (1000 * hour) token expiresAt

/-- All statements of transaction `i`, without its end. -/
private def statements (i n : ℕ) : List (Action (service digests)) :=
  List.replicate n (.exec i)

/-! ### Claims -/

/-- Migration 000006 claims every node that holds an unexpired token. -/
theorem migration000006_claimed (migrated : Time) (D : TablesV5) (mac : GoString) :
    ((migration000006 migrated D).ledger mac).Claimed migrated := by
  intro p hp hlt
  obtain ⟨r, hr, rfl⟩ := mem_ledger_tokens.mp hp
  obtain ⟨hr, hmac⟩ := Tables.mem_tokensOf.mp hr
  set live := (D.refreshTokens.filter fun r =>
    r.macAddress = some mac && decide (migrated < r.expiresAt)).map RefreshToken.expiresAt
    with hlive
  have hmem : r.expiresAt ∈ live :=
    List.mem_map.mpr ⟨r, List.mem_filter.mpr ⟨hr, by simpa [hmac] using hlt⟩, rfl⟩
  cases hmax : live.max? with
  | none =>
    rw [List.max?_eq_none_iff.mp hmax] at hmem
    cases hmem
  | some c =>
    refine ⟨c, ?_, (List.max?_eq_some_iff.mp hmax).2 _ hmem⟩
    simp only [Tables.ledger, NodeRows.ledger, Tables.nodeRows_enrollment, migration000006]
    rw [← hlive, hmax]
    rfl

/-- An `EnrollNode` whose expiry was not yet past when its transaction began. -/
def Timely (c : Commit (service H)) : Prop :=
  ∀ mac nonce ne tok e, c.call = .enrollNode mac nonce ne tok e → c.begun ≤ e

theorem timely_event {c : Commit (service H)} (h : Timely c) :
    (entry H c).event.Timely (entry H c).begun := by
  obtain ⟨call, begun, committed, result⟩ := c
  cases call with
  | enrollNode mac nonce ne tok e => exact h mac nonce ne tok e rfl
  | rotateRefreshToken => rcases result with _ | _ | _ <;> exact trivial
  | revokeEnrollment => exact trivial

theorem call_of_enrolled {c : Commit (service H)} {mac nonce tok : GoString} {ne e : Time}
    (hc : c.call = .enrollNode mac nonce ne tok e) :
    (entry H c).event = .enrolled (hashToken H tok) e := by
  simp only [entry, hc, Call.event]

/-- In a run from a migrated database every unexpired token is covered, and after
timely enrollments of its node every token that expires after the migration. -/
theorem run_claimed {D : TablesV5} {migrated now : Time} (hle : migrated ≤ now)
    {as : List (Action (service H))} {s : State (service H)}
    (hrun : Machine.run (step H) (initial H now (migration000006 migrated D)) as = some s)
    (mac : GoString) :
    (s.store.ledger mac).Claimed s.now ∧
      ((∀ c ∈ s.log, c.call.mac = mac → Timely c) → (s.store.ledger mac).Claimed migrated) := by
  obtain ⟨-, hreach⟩ := run_refines hrun
  have hstart := migration000006_claimed migrated D
  refine ⟨?_, fun htimely => ?_⟩
  · exact Reaches.invariant (I := fun w => ∀ n, (w.ledger n).Claimed w.now)
      (fun _ _ => claimed_step) (fun n => (hstart n).mono hle) hreach mac
  · refine Reaches.invariant (I := fun w : World GoString GoString Time =>
      (∀ y ∈ w.log, y.node = mac → y.event.Timely y.begun) → (w.ledger mac).Claimed migrated)
      (fun _ _ => claimed_of_timely_step) (fun _ => hstart mac) hreach ?_
    intro y hy hmac
    obtain ⟨c, hc, rfl⟩ := List.mem_map.mp hy
    exact timely_event (htimely c hc hmac)

/-- A committed enrollment found the claim of its node lapsed on its own clock. -/
theorem enrolled_step {s u : State (service H)} {a : Action (service H)}
    {c : Commit (service H)} (hinv : guarded.Inv s) (hstep : step H s a = some u)
    (hlog : u.log = s.log ++ [c]) {mac nonce tok : GoString} {ne e : Time}
    (hc : c.call = .enrollNode mac nonce ne tok e) :
    c.begun ≤ s.now ∧ ∀ x, (s.store.ledger mac).claim = some x → x ≤ c.begun := by
  obtain ⟨-, hs⟩ := step_refines hinv hstep
  obtain ⟨hbegun, hmove⟩ := step_appended (y := entry H c) hs (by simp [world, hlog])
  rw [call_of_enrolled hc] at hmove
  refine ⟨hbegun, ?_⟩
  have hmac : c.call.mac = mac := by rw [hc]; rfl
  simpa only [entry, world, hmac] using hmove.lapsed

theorem run_begunSince {now : Time} {D : Tables} {as : List (Action (service H))}
    {s : State (service H)} (hrun : Machine.run (step H) (initial H now D) as = some s) :
    s.BegunSince now := by
  refine Machine.run_invariant (step H) (I := fun s => s.BegunSince now)
    (fun _ _ _ => begunSince_step) ⟨le_rfl, ?_⟩ hrun
  intro i x hx
  cases hx

theorem step_log_begun {t : Time} {s u : State (service H)} {a : Action (service H)}
    {c : Commit (service H)} (hinv : guarded.Inv s) (hs : s.BegunSince t)
    (hstep : step H s a = some u) (hlog : u.log = s.log ++ [c]) : t ≤ c.begun := by
  cases (guarded.step_cases hinv hstep).2 with
  | silent _ _ hsame =>
    rw [hlog] at hsame
    simp at hsame
  | @commit i x r _ hx _ _ hmore =>
    obtain rfl : c = _ := by simpa [hlog] using hmore
    exact hs.2 i x hx

/-- From a migrated database: every stored token that has not expired is covered
by its node's claim. No enrollment succeeds beside a token unexpired when it
commits, nor, after timely enrollments of the node, beside one unexpired on its own clock. -/
theorem enrollNode_never_takes_over (D : TablesV5) {migrated now : Time} (hle : migrated ≤ now)
    {as : List (Action (service H))} {s : State (service H)}
    (hrun : Machine.run (step H) (initial H now (migration000006 migrated D)) as = some s) :
    (∀ mac, ∀ r ∈ s.store.tokensOf mac, s.now < r.expiresAt →
      ∃ e, s.store.nodeEnrollments mac = some e ∧ r.expiresAt ≤ e.expiresAt) ∧
    ∀ a u c, step H s a = some u → u.log = s.log ++ [c] →
      ∀ mac nonce ne tok e, c.call = .enrollNode mac nonce ne tok e →
        (∀ r ∈ s.store.tokensOf mac, r.expiresAt ≤ s.now) ∧
        ((∀ c' ∈ s.log, c'.call.mac = mac → Timely c') →
          ∀ r ∈ s.store.tokensOf mac, r.expiresAt ≤ c.begun) := by
  have hinv := (run_refines hrun).1
  have hmem {mac r} (hr : r ∈ s.store.tokensOf mac) :
      (r.tokenHash, r.expiresAt) ∈ (s.store.ledger mac).tokens := mem_ledger_tokens.mpr ⟨r, hr, rfl⟩
  refine ⟨?_, ?_⟩
  · intro mac r hr hlt
    obtain ⟨x, hx, hrx⟩ := (run_claimed hle hrun mac).1 _ (hmem hr) hlt
    obtain ⟨e, he, rfl⟩ := Option.map_eq_some_iff.mp hx
    exact ⟨e, he, hrx⟩
  · intro a u c hstep hlog mac nonce ne tok e hc
    obtain ⟨hbegun, hclaim⟩ := enrolled_step hinv hstep hlog hc
    refine ⟨fun r hr => ?_, fun htimely r hr => ?_⟩
    · exact (run_claimed hle hrun mac).1.expired hbegun hclaim _ (hmem hr)
    · have hmigrated := hle.trans (step_log_begun hinv (run_begunSince hrun) hstep hlog)
      exact (((run_claimed hle hrun mac).2 htimely).mono hmigrated).expired le_rfl hclaim _
        (hmem hr)

/-- `t0` enrolls until hour 192. At hour 192 an enrollment stalled since hour 0
replaces the lapsed claim by one that ended at hour 168, which lets in an
enrollment that began at hour 180. -/
private def shortened : List (Action (service digests)) :=
  [.tick (24 * hour), .begin 0 (enroll (ascii "t0") (192 * hour))] ++ statements 0 8 ++
  [.finish 0, .tick (180 * hour), .begin 1 (enroll (ascii "t1") (348 * hour)), .tick (192 * hour),
    .begin 2 (enroll (ascii "t2") (168 * hour))] ++ statements 2 8 ++
  [.finish 2] ++ statements 1 8

/-- An enrollment can succeed beside a token that is unexpired on its own clock. -/
theorem not_enrollNode_respects_own_clock :
    ¬ ∀ (H : Digests) (D : TablesV5) (migrated now : Time) (as : List (Action (service H)))
      (s u : State (service H)) (a : Action (service H)) (c : Commit (service H))
      (mac nonce tok : GoString) (ne e : Time),
      migrated ≤ now →
      Machine.run (step H) (initial H now (migration000006 migrated D)) as = some s →
      step H s a = some u → u.log = s.log ++ [c] → c.call = .enrollNode mac nonce ne tok e →
      ∀ r ∈ s.store.tokensOf mac, r.expiresAt ≤ c.begun := by
  intro h
  have hrun : (Machine.run (step digests) (initial digests 0 (migration000006 0 emptyV5))
      shortened).any (fun s => (step digests s (.finish 1)).any fun u =>
        decide (u.log = s.log ++
          [⟨enroll (ascii "t1") (348 * hour), 180 * hour, 192 * hour, .nil⟩]) &&
        (s.store.tokensOf node).any fun r => decide (180 * hour < r.expiresAt)) = true := by
    decide
  simp only [Option.any_eq_true, Bool.and_eq_true, decide_eq_true_eq, List.any_eq_true] at hrun
  obtain ⟨s, hs, u, hu, hlog, r, hr, hlt⟩ := hrun
  have hle := h digests emptyV5 0 0 shortened s u (.finish 1) _ node _ _ _ _ le_rfl hs hu hlog
    rfl r hr
  exact absurd hle (not_le.mpr hlt)

/-- `t0` enrolls until hour 192, and `t1` at hour 200. -/
private def lapsed : List (Action (service digests)) :=
  [.tick (24 * hour), .begin 0 (enroll (ascii "t0") (192 * hour))] ++ statements 0 8 ++
  [.finish 0, .tick (200 * hour), .begin 1 (enroll (ascii "t1") (348 * hour))] ++ statements 1 8

theorem enrollNode_never_takes_over_lapsed :
    ∃ s u c, Machine.run (step digests) (initial digests 0 (migration000006 0 emptyV5)) lapsed =
        some s ∧ step digests s (.finish 1) = some u ∧ u.log = s.log ++ [c] ∧
      (∀ mac, ∀ r ∈ s.store.tokensOf mac, s.now < r.expiresAt →
        ∃ e, s.store.nodeEnrollments mac = some e ∧ r.expiresAt ≤ e.expiresAt) ∧
      (∀ r ∈ s.store.tokensOf node, r.expiresAt ≤ s.now) ∧
      ∀ r ∈ s.store.tokensOf node, r.expiresAt ≤ c.begun := by
  have hrun : (Machine.run (step digests) (initial digests 0 (migration000006 0 emptyV5))
      lapsed).any (fun s =>
        decide (s.log = [⟨enroll (ascii "t0") (192 * hour), 24 * hour, 24 * hour, .nil⟩]) &&
        (step digests s (.finish 1)).any fun u => decide (u.log = s.log ++
          [⟨enroll (ascii "t1") (348 * hour), 200 * hour, 200 * hour, .nil⟩])) = true := by
    decide
  simp only [Option.any_eq_true, Bool.and_eq_true, decide_eq_true_eq] at hrun
  obtain ⟨s, hs, hfirst, u, hu, hlog⟩ := hrun
  obtain ⟨hcovered, hcommit⟩ := enrollNode_never_takes_over emptyV5 le_rfl hs
  obtain ⟨hnow, hown⟩ := hcommit _ u _ hu hlog node _ _ _ _ rfl
  refine ⟨s, u, _, hs, hu, hlog, hcovered, hnow, hown ?_⟩
  rw [hfirst]
  intro c hc _ mac nonce ne tok e hcall
  obtain rfl := List.mem_singleton.mp hc
  cases hcall
  decide

/-! ### Single use -/

def redeemed (c : Commit (service H)) : Option GoString :=
  match c.call, c.result with
  | .rotateRefreshToken _ old _ _, .rotated true => some old
  | _, _ => none

def stored (c : Commit (service H)) : Option GoString :=
  match c.call, c.result with
  | .enrollNode _ _ _ tok _, _ => some tok
  | .rotateRefreshToken _ _ new _, .rotated true => some new
  | _, _ => none

def Presents (c : Commit (service H)) (mac token : GoString) : Prop :=
  ∃ new e, c.call = .rotateRefreshToken mac token new e

def Enrolls (c : Commit (service H)) (mac : GoString) : Prop :=
  ∃ nonce ne tok e, c.call = .enrollNode mac nonce ne tok e

/-- Every token the log stored was new: not in the store at first, not stored
before. -/
def Fresh (D : Tables) (log : List (Commit (service H))) : Prop :=
  (log.filterMap stored).Nodup ∧
    ∀ t ∈ log.filterMap stored, hashToken H t ∉ D.refreshTokens.map RefreshToken.tokenHash

theorem entry_redeemed (c : Commit (service H)) :
    (entry H c).event.redeemed = (redeemed c).map (hashToken H) := by
  obtain ⟨call, begun, committed, result⟩ := c
  cases call with
  | rotateRefreshToken => rcases result with _ | _ | _ <;> rfl
  | enrollNode | revokeEnrollment => rfl

theorem entry_stored (c : Commit (service H)) :
    (entry H c).event.stored = (stored c).map (hashToken H) := by
  obtain ⟨call, begun, committed, result⟩ := c
  cases call with
  | rotateRefreshToken => rcases result with _ | _ | _ <;> rfl
  | enrollNode | revokeEnrollment => rfl

theorem entry_presented {c : Commit (service H)} {mac t : GoString} (h : Presents c mac t) :
    (entry H c).node = mac ∧ (entry H c).event.presented = some (hashToken H t) := by
  obtain ⟨call, begun, committed, result⟩ := c
  obtain ⟨new, e, rfl⟩ := h
  rcases result with _ | _ | _ <;> exact ⟨rfl, rfl⟩

theorem not_entry_enrolled {c : Commit (service H)} (h : ¬ Enrolls c c.call.mac) :
    ∀ new e, (entry H c).event ≠ .enrolled new e := by
  obtain ⟨call, begun, committed, result⟩ := c
  cases call with
  | enrollNode mac nonce ne tok e => exact absurd ⟨nonce, ne, tok, e, rfl⟩ h
  | rotateRefreshToken => rcases result with _ | _ | _ <;> exact fun _ _ => nofun
  | revokeEnrollment => exact fun _ _ => nofun

theorem world_redeemed (s : State (service H)) :
    (world s).redeemed = (s.log.filterMap redeemed).map (hashToken H) := by
  simp only [World.redeemed, world, List.filterMap_map, List.map_filterMap]
  exact List.filterMap_congr fun c _ => entry_redeemed c

theorem world_stored (s : State (service H)) :
    (world s).stored = (s.log.filterMap stored).map (hashToken H) := by
  simp only [World.stored, world, List.filterMap_map, List.map_filterMap]
  exact List.filterMap_congr fun c _ => entry_stored c

/-- The token hashes of the store a run starts from. -/
def Initial (D : Tables) (x : GoString) : Prop := x ∈ D.refreshTokens.map RefreshToken.tokenHash

theorem world_fresh (hsha : Function.Injective H.sha256) {D : Tables} {s : State (service H)}
    (h : Fresh D s.log) : (world s).Fresh (Initial D) := by
  rw [World.Fresh, world_stored]
  refine ⟨h.1.map (hashToken_injective H hsha), ?_⟩
  intro x hx
  obtain ⟨t, ht, rfl⟩ := List.mem_map.mp hx
  exact h.2 t ht

theorem mem_ledger_names {D : Tables} {mac x : GoString} :
    x ∈ (D.ledger mac).names ↔ ∃ r ∈ D.tokensOf mac, r.tokenHash = x := by
  simp [Ledger.names, Tables.ledger, NodeRows.ledger]

theorem initial_singleUse {D : Tables} (now : Time)
    (hdistinct : (D.refreshTokens.map RefreshToken.tokenHash).Nodup) :
    SingleUse (Initial D) (world (initial H now D)) where
  nodup := by
    intro mac
    have hnames : (D.ledger mac).names = (D.tokensOf mac).map RefreshToken.tokenHash := by
      simp [Ledger.names, Tables.ledger, NodeRows.ledger]
    exact hnames ▸ hdistinct.sublist (List.filter_sublist.map _)
  owner := by
    intro n m x hn hm
    obtain ⟨r, hr, rfl⟩ := mem_ledger_names.mp hn
    obtain ⟨r', hr', hx⟩ := mem_ledger_names.mp hm
    rw [Tables.mem_tokensOf] at hr hr'
    obtain rfl := List.inj_on_of_nodup_map hdistinct hr'.1 hr.1 hx
    exact Option.some.inj (hr.2.symm.trans hr'.2)
  issued := by
    intro n x hx
    obtain ⟨r, hr, rfl⟩ := mem_ledger_names.mp hx
    exact Or.inl (List.mem_map.mpr ⟨r, (Tables.mem_tokensOf.mp hr).1, rfl⟩)
  spent_issued := fun x hx => nomatch hx
  spent := fun x hx => nomatch hx
  once := List.nodup_nil

/-- With fresh tokens and a collision-free digest every token is redeemed at most
once, and once a redeemed token is presented again its node redeems none until it
enrolls. -/
theorem refreshToken_single_use (hsha : Function.Injective H.sha256) {now : Time} {D : Tables}
    (hdistinct : (D.refreshTokens.map RefreshToken.tokenHash).Nodup)
    {as : List (Action (service H))} {s : State (service H)}
    (hrun : Machine.run (step H) (initial H now D) as = some s) (hfresh : Fresh D s.log) :
    (s.log.filterMap redeemed).Nodup ∧
    ∀ mac r l₁ c l₂ l₃, s.log = l₁ ++ c :: (l₂ ++ l₃) → Presents c mac r →
      (∃ y ∈ l₁, y.call.mac = mac ∧ redeemed y = some r) → (∀ y ∈ l₂, ¬ Enrolls y mac) →
      ∀ y ∈ c :: l₂, y.call.mac = mac → redeemed y = none := by
  obtain ⟨-, hreach⟩ := run_refines hrun
  obtain ⟨hsingle, hrevoked⟩ : SingleUse (Initial D) (world s) ∧ (world s).Revoked := by
    refine Reaches.invariant (I := fun w => w.Fresh (Initial D) →
      SingleUse (Initial D) w ∧ w.Revoked) ?_ ?_ hreach (world_fresh hsha hfresh)
    · intro w x hw hs hx
      obtain ⟨hsingle, hrevoked⟩ := hw (hs.fresh hx)
      exact ⟨singleUse_step hsingle hs hx, revoked_step hrevoked hsingle hs⟩
    · intro _
      refine ⟨initial_singleUse now hdistinct, ?_⟩
      intro n t l₁ c l₂ l₃ hsplit
      simp [world, initial, State.initial] at hsplit
  refine ⟨?_, ?_⟩
  · have hnodup := hsingle.once
    rw [world_redeemed] at hnodup
    exact hnodup.of_map
  · rintro mac r l₁ c l₂ l₃ hsplit hc ⟨z, hz, hzmac, hzr⟩ hquiet
    obtain ⟨hnode, hpresented⟩ := entry_presented hc
    have hlog : (world s).log = l₁.map (entry H) ++
        entry H c :: (l₂.map (entry H) ++ l₃.map (entry H)) := by
      simp [world, hsplit]
    obtain ⟨hcnone, hl₂, -⟩ := hrevoked mac (hashToken H r) _ _ _ _ hlog hnode hpresented
      ⟨entry H z, List.mem_map_of_mem hz, hzmac, by rw [entry_redeemed, hzr]; rfl⟩ (by
        intro y hy hyn
        obtain ⟨d, hd, rfl⟩ := List.mem_map.mp hy
        have hmac : d.call.mac = mac := hyn
        exact not_entry_enrolled (hmac.symm ▸ hquiet d hd))
    intro y hy hymac
    have hnone : (entry H y).event.redeemed = none := by
      rcases List.mem_cons.mp hy with rfl | hy
      · exact hcnone
      · exact hl₂ _ (List.mem_map_of_mem hy) hymac
    rw [entry_redeemed] at hnone
    exact Option.map_eq_none_iff.mp hnone

private def rotate (old new : GoString) (expiresAt : Time) : Call :=
  .rotateRefreshToken node old new expiresAt

/-- `t0` is redeemed for `t1` and presented again, so `t1` is not redeemed. -/
private def replayed : List (Action (service digests)) :=
  [.begin 0 (enroll (ascii "t0") (168 * hour))] ++ statements 0 8 ++
  [.finish 0, .tick hour, .begin 1 (rotate (ascii "t0") (ascii "t1") (169 * hour)),
    .begin 2 (rotate (ascii "t0") (ascii "t2") (169 * hour))] ++ statements 1 5 ++
  [.finish 1] ++ statements 2 4 ++
  [.finish 2, .begin 3 (rotate (ascii "t1") (ascii "t2") (169 * hour))] ++ statements 3 4 ++
  [.finish 3]

theorem refreshToken_single_use_replayed :
    ∃ s, Machine.run (step digests) (initial digests 0 Tables.empty) replayed = some s ∧
      s.log.map Commit.result = [.nil, .rotated true, .rotated false, .rotated false] ∧
      (s.log.filterMap redeemed).Nodup := by
  have hrun : (Machine.run (step digests) (initial digests 0 Tables.empty) replayed).any (fun s =>
      decide (s.log.map Commit.result = [.nil, .rotated true, .rotated false, .rotated false]) &&
      decide (s.log.filterMap stored = [ascii "t0", ascii "t1"])) = true := by
    decide
  simp only [Option.any_eq_true, Bool.and_eq_true, decide_eq_true_eq] at hrun
  obtain ⟨s, hs, hresults, hstored⟩ := hrun
  have hfresh : Fresh Tables.empty s.log := by
    rw [Fresh, hstored]
    exact ⟨by decide, fun _ _ hmem => nomatch hmem⟩
  have hdistinct : (Tables.empty.refreshTokens.map RefreshToken.tokenHash).Nodup := List.nodup_nil
  exact ⟨s, hs, hresults, (refreshToken_single_use digest_injective hdistinct hs hfresh).1⟩

/-! ### One redeemable token -/

def redeemable (s : State (service H)) (mac : GoString) : List RefreshToken :=
  (s.store.tokensOf mac).filter fun r => decide (s.now < r.expiresAt)

/-- The call redeems nothing in `s`, or no row of its node is unexpired apart from
those of the token it redeems. -/
def Call.RedeemsCurrent (H : Digests) (s : State (service H)) (begun : Time) : Call → Prop
  | .rotateRefreshToken mac old _ _ =>
    (∃ r ∈ s.store.tokensOf mac, r.tokenHash = hashToken H old ∧ begun < r.expiresAt) →
      ∀ r ∈ redeemable s mac, r.tokenHash = hashToken H old
  | .enrollNode _ _ _ _ _ | .revokeEnrollment _ => True

/-- The condition on a transaction about to end. -/
def RedeemsCurrent (H : Digests) (s : State (service H)) : Action (service H) → Prop
  | .finish i => ∀ t ∈ s.txs i, t.call.RedeemsCurrent H s t.begun
  | .tick _ | .begin _ _ | .exec _ | .abort _ => True

instance (s : State (service H)) (begun : Time) : ∀ c, Decidable (Call.RedeemsCurrent H s begun c)
  | .rotateRefreshToken mac old _ _ => inferInstanceAs (Decidable
    ((∃ r ∈ s.store.tokensOf mac, r.tokenHash = hashToken H old ∧ begun < r.expiresAt) →
      ∀ r ∈ redeemable s mac, r.tokenHash = hashToken H old))
  | .enrollNode _ _ _ _ _ | .revokeEnrollment _ => isTrue trivial

instance (s : State (service H)) : ∀ a, Decidable (RedeemsCurrent H s a)
  | .finish i => inferInstanceAs (Decidable (∀ t ∈ s.txs i, t.call.RedeemsCurrent H s t.begun))
  | .tick _ | .begin _ _ | .exec _ | .abort _ => isTrue trivial

theorem redeemable_length (s : State (service H)) (mac : GoString) :
    (redeemable s mac).length = ((s.store.ledger mac).live s.now).length := by
  rw [Ledger.live, Tables.ledger, NodeRows.ledger, List.filter_map, List.length_map]
  rfl

theorem call_of_rotated {c : Call} {a : Returned} {x y : GoString} {e : Time}
    (h : c.event H a = .rotated x y e) :
    ∃ old new, c = .rotateRefreshToken c.mac old new e ∧ hashToken H old = x := by
  cases c with
  | rotateRefreshToken mac old new e' =>
    rcases a with _ | _ | _ <;> cases h
    exact ⟨old, new, rfl, rfl⟩
  | enrollNode | revokeEnrollment => cases h

theorem step_redeemable_le_one {s u : State (service H)} {a : Action (service H)}
    (hinv : guarded.Inv s) (hclaimed : ∀ mac, (s.store.ledger mac).Claimed s.now)
    (hone : ∀ mac, (redeemable s mac).length ≤ 1) (hcurrent : RedeemsCurrent H s a)
    (hstep : step H s a = some u) : ∀ mac, (redeemable u mac).length ≤ 1 := by
  intro mac
  rw [redeemable_length]
  cases (guarded.step_cases hinv hstep).2 with
  | silent hnow hstore =>
    rw [hstore]
    exact (Ledger.live_length_mono hnow).trans (redeemable_length s mac ▸ hone mac)
  | @commit i t r ha ht hret hnow _ hstore hbegun hcompletes hframe =>
    subst ha
    rw [hnow]
    by_cases hmac : mac = t.call.mac
    · subst hmac
      have hmove := body_moves (a := r) hcompletes
      rw [hstore]
      refine hmove.live_le_one hbegun (hclaimed _) ?_
      intro x y e hev p hp
      obtain ⟨old, new, hcall, rfl⟩ := call_of_rotated hev
      rw [hev] at hmove
      obtain ⟨e', hold, hlt'⟩ := hmove.redeemable
      obtain ⟨row', hrow', heq⟩ := mem_ledger_tokens.mp hold
      obtain ⟨hhash, rfl⟩ := Prod.mk.inj heq
      obtain ⟨hp, hlt⟩ := Ledger.mem_live.mp hp
      obtain ⟨row, hrow, rfl⟩ := mem_ledger_tokens.mp hp
      have hrule : t.call.RedeemsCurrent H s t.begun := hcurrent t ht
      rw [hcall] at hrule
      exact hrule ⟨row', hrow', hhash, hlt'⟩ row (List.mem_filter.mpr ⟨hrow, by simpa using hlt⟩)
    · have hledger : u.store.ledger mac = s.store.ledger mac :=
        congrArg NodeRows.ledger (hframe mac hmac)
      rw [hledger]
      exact redeemable_length s mac ▸ hone mac

/-- From an empty store, a node has at most one redeemable token as long as no
rotation redeems a token that expired after its transaction began while another
token of the node has not. -/
theorem redeemable_le_one {now : Time} {as : List (Action (service H))} {s : State (service H)}
    (hcurrent : Machine.Meets (step H) (RedeemsCurrent H) (initial H now Tables.empty) as)
    (hrun : Machine.run (step H) (initial H now Tables.empty) as = some s) (mac : GoString) :
    (redeemable s mac).length ≤ 1 := by
  refine (Machine.run_invariant_of_meets (step H) (I := fun s => guarded.Inv s ∧
    (∀ mac, (s.store.ledger mac).Claimed s.now) ∧ ∀ mac, (redeemable s mac).length ≤ 1) ?_ ?_
    hcurrent hrun).2.2 mac
  · rintro s a u ⟨hinv, hclaimed, hone⟩ hC hstep
    obtain ⟨hu, hs⟩ := step_refines hinv hstep
    exact ⟨hu, claimed_step (w := world s) (x := world u) hclaimed hs,
      step_redeemable_le_one hinv hclaimed hone hC hstep⟩
  · refine ⟨guarded.inv_initial now Tables.empty, ?_, fun mac => Nat.zero_le 1⟩
    intro mac p hp
    cases hp

theorem redeemable_le_one_replayed :
    ∃ s, Machine.run (step digests) (initial digests 0 Tables.empty) replayed = some s ∧
      ∀ mac, (redeemable s mac).length ≤ 1 := by
  obtain ⟨s, hs⟩ := Option.isSome_iff_exists.mp (show (Machine.run (step digests)
    (initial digests 0 Tables.empty) replayed).isSome = true by decide)
  have hcurrent : Machine.Meets (step digests) (RedeemsCurrent digests)
      (initial digests 0 Tables.empty) replayed := by
    decide
  exact ⟨s, hs, redeemable_le_one hcurrent hs⟩

/-- The expiry a call passes lies in the future. -/
def Call.PassesFuture (now : Time) : Call → Prop
  | .enrollNode _ _ _ _ e | .rotateRefreshToken _ _ _ e => now < e
  | .revokeEnrollment _ => True

def PassesFuture (s : State (service H)) : Action (service H) → Prop
  | .begin _ c => c.PassesFuture s.now
  | .tick _ | .exec _ | .abort _ | .finish _ => True

instance (now : Time) : ∀ c, Decidable (Call.PassesFuture now c)
  | .enrollNode _ _ _ _ e | .rotateRefreshToken _ _ _ e => inferInstanceAs (Decidable (now < e))
  | .revokeEnrollment _ => isTrue trivial

instance (s : State (service H)) : ∀ a, Decidable (PassesFuture s a)
  | .begin _ c => inferInstanceAs (Decidable (c.PassesFuture s.now))
  | .tick _ | .exec _ | .abort _ | .finish _ => isTrue trivial

/-- A rotation of `t0` begins just before it expires and waits while the node
enrolls again with `t1`. -/
private def staleRotation : List (Action (service digests)) :=
  [.begin 0 (enroll (ascii "t0") (168 * hour))] ++ statements 0 8 ++
  [.finish 0, .tick (167 * hour), .begin 1 (rotate (ascii "t0") (ascii "t2") (335 * hour)),
    .tick (168 * hour), .begin 2 (enroll (ascii "t1") (336 * hour))] ++ statements 2 8 ++
  [.finish 2] ++ statements 1 5 ++ [.finish 1]

/-- The node then holds two redeemable tokens. -/
theorem not_always_redeemable_le_one :
    ¬ ∀ (H : Digests) (now : Time) (as : List (Action (service H))) (s : State (service H))
      (mac : GoString), Machine.Meets (step H) PassesFuture (initial H now Tables.empty) as →
      Machine.run (step H) (initial H now Tables.empty) as = some s →
      (redeemable s mac).length ≤ 1 := by
  intro h
  have hfuture : Machine.Meets (step digests) PassesFuture (initial digests 0 Tables.empty)
      staleRotation := by
    decide
  have hrun : (Machine.run (step digests) (initial digests 0 Tables.empty) staleRotation).any
      (fun s => decide ((redeemable s node).length = 2)) = true := by
    decide
  simp only [Option.any_eq_true, decide_eq_true_eq] at hrun
  obtain ⟨s, hs, htwo⟩ := hrun
  have hone := h digests 0 staleRotation s node hfuture hs
  omega

end Patchli.Db
