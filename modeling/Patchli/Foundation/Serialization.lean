import Patchli.Foundation.Transaction

/-!
# Transactions serialized by one lock for each part of the store

Every body first takes the lock of the part of the store it works on. Each
commit then acts on that part as if the whole body had run alone on the
committed store, and leaves every other part as it was (`step_cases`). Statements
on none of the parts may reply anything their store could make them reply.
-/

namespace Patchli.Transaction

variable {L : Language} {S : Service L}

/-- A store split into parts. Each statement works on one part (`scope`) or on
none of them, and writes nothing outside it. -/
structure Partition (L : Language) where
  Key : Type
  Part : Type
  part : Key → L.Store → Part
  scope : L.Stmt → Option Key
  eval_congr : ∀ {k b D E q}, scope q = some k → part k D = part k E →
    L.eval b D q = L.eval b E q
  write_congr : ∀ {k D E} (w), part k D = part k E → part k (L.write w D) = part k (L.write w E)
  frame : ∀ {k b D q r ws w}, L.eval b D q = some (r, ws) → w ∈ ws → scope q ≠ some k →
    ∀ E, part k (L.write w E) = part k E

variable (P : Partition L)

theorem Partition.overlay_congr {k : P.Key} {D E : L.Store} (h : P.part k D = P.part k E)
    (ws : List L.Write) : P.part k (overlay ws D) = P.part k (overlay ws E) := by
  induction ws generalizing D E with
  | nil => exact h
  | cons w ws ih => exact ih (P.write_congr w h)

/-- Writes that leave part `k` alone. -/
def Partition.Foreign (k : P.Key) (ws : List L.Write) : Prop :=
  ∀ w ∈ ws, ∀ E, P.part k (L.write w E) = P.part k E

theorem Partition.Foreign.overlay {P : Partition L} {k : P.Key} {ws : List L.Write}
    (h : P.Foreign k ws) (D : L.Store) : P.part k (overlay ws D) = P.part k D := by
  induction ws generalizing D with
  | nil => rfl
  | cons w ws ih =>
    rw [overlay_cons, ih (fun v hv => h v (by simp [hv]))]
    exact h w (by simp) D

theorem Partition.Foreign.append {P : Partition L} {k : P.Key} {ws vs : List L.Write}
    (hw : P.Foreign k ws) (hv : P.Foreign k vs) : P.Foreign k (ws ++ vs) := by
  intro w hmem
  rcases List.mem_append.mp hmem with h | h
  · exact hw w h
  · exact hv w h

/-- The program stays inside part `k`, apart from statements on no part. -/
def Prog.Inside {α : Type} (k : P.Key) : Prog L α → Prop
  | .ret _ => True
  | .stmt q next => (P.scope q = none ∨ P.scope q = some k) ∧ ∀ r, (next r).Inside k

theorem Prog.Inside.bind {P : Partition L} {k : P.Key} {α β : Type} {p : Prog L α}
    {f : α → Prog L β} (hp : p.Inside P k) (hf : ∀ a, (f a).Inside P k) :
    (p >>= f).Inside P k := by
  induction p with
  | ret a => exact hf a
  | stmt q next ih => exact ⟨hp.1, fun r => ih r (hp.2 r)⟩

/-- A statement of part `k` replies as on `D`; any other statement replies as on
some store. -/
def Partition.Replies (k : P.Key) (b : ℤ) (D : L.Store) (q : L.Stmt)
    (r : L.Reply q) (vs : List L.Write) : Prop :=
  ∃ E, (P.scope q = some k → E = D) ∧ L.eval b E q = some (r, vs)

/-- `p` completes with `a`, having written `out`, when it runs alone on `D`
after the writes `ws`. Only part `k` of `D` is taken from the actual store. -/
inductive Completes (k : P.Key) (b : ℤ) (D : L.Store) {α : Type} :
    List L.Write → Prog L α → List L.Write → α → Prop
  | ret (ws : List L.Write) (a : α) : Completes k b D ws (.ret a) ws a
  | stmt {ws vs out : List L.Write} {q : L.Stmt} {next : L.Reply q → Prog L α} {r : L.Reply q}
      {a : α} : P.Replies k b (overlay ws D) q r vs →
      Completes k b D (ws ++ vs) (next r) out a → Completes k b D ws (.stmt q next) out a

/-- The part of such an execution already done, in the order it was done. -/
inductive Reaches (k : P.Key) (b : ℤ) (D : L.Store) {α : Type} (p : Prog L α) :
    List L.Write → Prog L α → Prop
  | start : Reaches k b D p [] p
  | stmt {ws vs : List L.Write} {q : L.Stmt} {next : L.Reply q → Prog L α} {r : L.Reply q} :
      Reaches k b D p ws (.stmt q next) → P.Replies k b (overlay ws D) q r vs →
      Reaches k b D p (ws ++ vs) (next r)

variable {P}

theorem Partition.Replies.congr {k : P.Key} {b : ℤ} {D E : L.Store} {q : L.Stmt} {r : L.Reply q}
    {vs : List L.Write} (h : P.part k D = P.part k E) (hr : P.Replies k b D q r vs) :
    P.Replies k b E q r vs := by
  obtain ⟨F, hF, heval⟩ := hr
  by_cases hq : P.scope q = some k
  · refine ⟨E, fun _ => rfl, ?_⟩
    rw [← P.eval_congr hq h, ← hF hq]
    exact heval
  · exact ⟨F, fun hs => absurd hs hq, heval⟩

theorem Reaches.congr {k : P.Key} {b : ℤ} {D E : L.Store} {α : Type} {p p' : Prog L α}
    {ws : List L.Write} (h : P.part k D = P.part k E) (hr : Reaches P k b D p ws p') :
    Reaches P k b E p ws p' := by
  induction hr with
  | start => exact .start
  | stmt _ hreply ih => exact ih.stmt (hreply.congr (P.overlay_congr h _))

theorem Reaches.completes {k : P.Key} {b : ℤ} {D : L.Store} {α : Type} {p p' : Prog L α}
    {ws out : List L.Write} {a : α} (hr : Reaches P k b D p ws p')
    (hc : Completes P k b D ws p' out a) : Completes P k b D [] p out a := by
  induction hr with
  | start => exact hc
  | stmt _ hreply ih => exact ih (.stmt hreply hc)

theorem completes_ret {k : P.Key} {b : ℤ} {D : L.Store} {α : Type} {ws out : List L.Write}
    {a a' : α} : Completes P k b D ws (.ret a) out a' ↔ out = ws ∧ a' = a := by
  constructor
  · rintro ⟨⟩
    exact ⟨rfl, rfl⟩
  · rintro ⟨rfl, rfl⟩
    exact .ret out a'

theorem completes_stmt {k : P.Key} {b : ℤ} {D : L.Store} {α : Type} {ws out : List L.Write}
    {q : L.Stmt} {next : L.Reply q → Prog L α} {a : α} :
    Completes P k b D ws (.stmt q next) out a ↔
      ∃ r vs, P.Replies k b (overlay ws D) q r vs ∧ Completes P k b D (ws ++ vs) (next r) out a := by
  constructor
  · rintro ⟨⟩
    exact ⟨_, _, ‹_›, ‹_›⟩
  · rintro ⟨r, vs, hreply, hnext⟩
    exact .stmt hreply hnext

theorem completes_bind {k : P.Key} {b : ℤ} {D : L.Store} {α β : Type} {ws out : List L.Write}
    {p : Prog L α} {f : α → Prog L β} {a : β} :
    Completes P k b D ws (p >>= f) out a ↔
      ∃ mid x, Completes P k b D ws p mid x ∧ Completes P k b D mid (f x) out a := by
  induction p generalizing ws with
  | ret x =>
    simp only [Prog.ret_bind, completes_ret]
    constructor
    · exact fun h => ⟨ws, x, ⟨rfl, rfl⟩, h⟩
    · rintro ⟨mid, y, ⟨rfl, rfl⟩, h⟩
      exact h
  | stmt q next ih =>
    simp only [Prog.stmt_bind, completes_stmt, ih]
    constructor
    · rintro ⟨r, vs, hreply, mid, x, hp, hf⟩
      exact ⟨mid, x, ⟨r, vs, hreply, hp⟩, hf⟩
    · rintro ⟨mid, x, ⟨r, vs, hreply, hp⟩, hf⟩
      exact ⟨r, vs, hreply, mid, x, hp, hf⟩

theorem completes_exec {k : P.Key} {b : ℤ} {D : L.Store} {ws out : List L.Write} {q : L.Stmt}
    {r : L.Reply q} : Completes P k b D ws (.exec q) out r ↔
      ∃ vs, P.Replies k b (overlay ws D) q r vs ∧ out = ws ++ vs := by
  simp only [Prog.exec, completes_stmt, completes_ret]
  constructor
  · rintro ⟨r', vs, hreply, rfl, rfl⟩
    exact ⟨vs, hreply, rfl⟩
  · rintro ⟨vs, hreply, rfl⟩
    exact ⟨r, vs, hreply, rfl, rfl⟩

theorem completes_extends {k : P.Key} {b : ℤ} {D : L.Store} {α : Type} {p : Prog L α}
    {ws out : List L.Write} {a : α} (h : Completes P k b D ws p out a) : ∃ vs, out = ws ++ vs := by
  induction h with
  | ret ws a => exact ⟨[], by simp⟩
  | stmt _ _ ih =>
    obtain ⟨us, rfl⟩ := ih
    exact ⟨_, List.append_assoc ..⟩

theorem replies_of_scope {k : P.Key} {b : ℤ} {D : L.Store} {q : L.Stmt} {r : L.Reply q}
    {vs : List L.Write} (hq : P.scope q = some k) :
    P.Replies k b D q r vs ↔ L.eval b D q = some (r, vs) := by
  constructor
  · rintro ⟨E, hE, heval⟩
    rw [← hE hq]
    exact heval
  · exact fun heval => ⟨D, fun _ => rfl, heval⟩

/-- A statement on another part, or on none, leaves part `k` alone. -/
theorem Partition.Replies.foreign {k : P.Key} {b : ℤ} {D : L.Store} {q : L.Stmt} {r : L.Reply q}
    {vs : List L.Write} (hr : P.Replies k b D q r vs) (hq : P.scope q ≠ some k) :
    P.Foreign k vs := by
  obtain ⟨E, -, heval⟩ := hr
  exact fun w hw => P.frame heval hw hq

/-! ### One lock for each part -/

/-- Every body works on one part and takes the lock of that part first. -/
structure Guarded (P : Partition L) (S : Service L) where
  key : S.Call → P.Key
  lock : P.Key → L.LockKey
  inside : ∀ c, (S.body c).Inside P (key c)
  locks_first : ∀ c, ∃ q next, S.body c = .stmt q next ∧
    ∀ b D, lock (key c) ∈ L.locks b D q

variable (G : Guarded P S)

/-- Transaction `i` has done a prefix of its body on its part of the current
store, and once it has started it holds the lock of that part. -/
structure Guarded.TxInv (s : State S) (i : ℕ) (t : Tx S) : Prop where
  begun_le : t.begun ≤ s.now
  inside : t.prog.Inside P (G.key t.call)
  foreign : ∀ k, k ≠ G.key t.call → P.Foreign k t.writes
  reaches : Reaches P (G.key t.call) t.begun s.store (S.body t.call) t.writes t.prog
  held : (t.writes = [] ∧ t.prog = S.body t.call) ∨
    s.locks (G.lock (G.key t.call)) = some i

def Guarded.Inv (s : State S) : Prop := ∀ i t, s.txs i = some t → G.TxInv s i t

theorem Guarded.inv_initial (now : ℤ) (D : L.Store) : G.Inv (State.initial S now D) := by
  intro i t ht
  cases ht

theorem Guarded.held_unique {s : State S} {i j : ℕ} {k : P.Key}
    (hi : s.locks (G.lock k) = some i) (hj : s.locks (G.lock k) = some j) : i = j :=
  Option.some.inj (hi.symm.trans hj)

/-- A transaction whose body returned holds its lock: the body takes it first. -/
theorem Guarded.TxInv.holds {G : Guarded P S} {s : State S} {i : ℕ} {t : Tx S}
    (h : G.TxInv s i t) {o : Except S.Error S.Result} (hret : t.prog = .ret o) :
    s.locks (G.lock (G.key t.call)) = some i := by
  rcases h.held with ⟨-, hstart⟩ | hheld
  · obtain ⟨q, next, hbody, -⟩ := G.locks_first t.call
    rw [hret, hbody] at hstart
    cases hstart
  · exact hheld

theorem Guarded.TxInv.completes {G : Guarded P S} {s : State S} {i : ℕ} {t : Tx S}
    (h : G.TxInv s i t) {o : Except S.Error S.Result} (hret : t.prog = .ret o) :
    Completes P (G.key t.call) t.begun s.store [] (S.body t.call) t.writes o := by
  have hr := h.reaches
  rw [hret] at hr
  exact hr.completes (.ret t.writes o)

theorem Guarded.inv_begin {s : State S} (h : G.Inv s) (i : ℕ) (c : S.Call) :
    G.Inv { s with txs := Function.update s.txs i (some ⟨c, s.now, [], S.body c⟩) } := by
  intro j t htj
  by_cases hij : j = i
  · subst hij
    obtain rfl : t = ⟨c, s.now, [], S.body c⟩ := by simpa using htj.symm
    refine ⟨le_rfl, G.inside c, ?_, .start, Or.inl ⟨rfl, rfl⟩⟩
    intro k hk w hw
    cases hw
  · have htj' : s.txs j = some t := by simpa [hij] using htj
    exact ⟨(h j t htj').begun_le, (h j t htj').inside, (h j t htj').foreign,
      (h j t htj').reaches, (h j t htj').held⟩

theorem Guarded.TxInv.close {G : Guarded P S} {s : State S} {i j : ℕ} {t : Tx S}
    (h : G.TxInv s j t) (hij : j ≠ i) : G.TxInv (s.close i) j t where
  begun_le := h.begun_le
  inside := h.inside
  foreign := h.foreign
  reaches := h.reaches
  held := by
    refine h.held.imp_right fun hheld => ?_
    have hne : s.locks (G.lock (G.key t.call)) ≠ some i := by
      rw [hheld]
      exact fun he => hij (Option.some.inj he)
    simpa only [State.close, if_neg hne] using hheld

theorem Guarded.inv_close {s : State S} (h : G.Inv s) (i : ℕ) : G.Inv (s.close i) := by
  intro j t ht
  by_cases hij : j = i
  · subst hij
    simp [State.close] at ht
  · have htj : s.txs j = some t := by simpa [State.close, hij] using ht
    exact (h j t htj).close hij

/-- Committing transaction `i` changes no part that another transaction has read. -/
theorem Guarded.inv_commit {s : State S} (h : G.Inv s) {i : ℕ} {t : Tx S} {a : S.Result}
    (ht : s.txs i = some t) (hret : t.prog = .ret (.ok a)) :
    G.Inv { s.close i with
      store := overlay t.writes s.store
      log := s.log ++ [⟨t.call, t.begun, s.now, a⟩] } := by
  intro j u hu
  by_cases hij : j = i
  · subst hij
    simp [State.close] at hu
  · have huj : s.txs j = some u := by simpa [State.close, hij] using hu
    have hj := (h j u huj).close hij
    refine ⟨hj.begun_le, hj.inside, hj.foreign, ?_, hj.held⟩
    rcases (h j u huj).held with ⟨hws, hstart⟩ | hheld
    · rw [hws, hstart]
      exact .start
    · refine hj.reaches.congr ?_
      have hk : G.key u.call ≠ G.key t.call := by
        intro hk
        rw [hk] at hheld
        exact hij (G.held_unique hheld ((h i t ht).holds hret))
      exact (((h i t ht).foreign _ hk).overlay s.store).symm

variable [DecidableEq L.LockKey]

/-- A grabbed lock was free or already held, so other holders keep theirs. -/
theorem State.grab_of_held {s : State S} {i j : ℕ} {ks : List L.LockKey} {k : L.LockKey}
    (hfree : ks.all (s.free i)) (hk : s.locks k = some j) (hij : j ≠ i) :
    s.grab i ks k = some j := by
  have hmem : k ∉ ks := by
    intro hmem
    have hf := List.all_eq_true.mp hfree k hmem
    simp [State.free, hk, hij] at hf
  simp [State.grab, hmem, hk]

theorem Guarded.inv_exec {s : State S} (h : G.Inv s) {i : ℕ} {c : S.Call} {b : ℤ}
    {ws vs : List L.Write} {q : L.Stmt} {next : L.Reply q → Prog L (Except S.Error S.Result)}
    {r : L.Reply q} (ht : s.txs i = some ⟨c, b, ws, .stmt q next⟩)
    (hfree : (L.locks b (overlay ws s.store) q).all (s.free i))
    (heval : L.eval b (overlay ws s.store) q = some (r, vs)) :
    G.Inv { s with
      locks := s.grab i (L.locks b (overlay ws s.store) q)
      txs := Function.update s.txs i (some ⟨c, b, ws ++ vs, next r⟩) } := by
  intro j t htj
  by_cases hij : j = i
  · subst hij
    obtain rfl : t = ⟨c, b, ws ++ vs, next r⟩ := by simpa using htj.symm
    have hi := h j _ ht
    obtain ⟨hscope, hnext⟩ := hi.inside
    refine ⟨hi.begun_le, hnext r, ?_, ?_, Or.inr ?_⟩
    · intro k hk
      refine (hi.foreign k hk).append fun w hw => P.frame heval hw ?_
      rcases hscope with hq | hq <;> rw [hq]
      · exact fun he => nomatch he
      · exact fun he => hk (Option.some.inj he).symm
    · exact hi.reaches.stmt ⟨_, fun _ => rfl, heval⟩
    · rcases hi.held with ⟨-, hstart⟩ | hheld
      · -- the first statement of the body takes the lock of the part
        obtain ⟨q', next', hbody, hlock⟩ := G.locks_first c
        have hq : q = q' := by
          have he : Prog.stmt q next = S.body c := hstart
          rw [hbody] at he
          injection he
        subst hq
        simp [State.grab, hlock b]
      · change s.grab j _ _ = _
        by_cases hmem : G.lock (G.key c) ∈ L.locks b (overlay ws s.store) q
        · simp [State.grab, hmem]
        · simpa [State.grab, hmem] using hheld
  · have htj' : s.txs j = some t := by simpa [hij] using htj
    have hj := h j t htj'
    exact ⟨hj.begun_le, hj.inside, hj.foreign, hj.reaches,
      hj.held.imp_right fun hheld => State.grab_of_held hfree hheld hij⟩

/-- What a step can do: it leaves store and log alone, or it commits one
transaction, which then acts as its body run alone on the committed store. -/
inductive Guarded.Effect (s : State S) (x : Action S) (u : State S) : Prop
  | silent : s.now ≤ u.now → u.store = s.store → u.log = s.log → Effect s x u
  | commit {i : ℕ} {t : Tx S} {a : S.Result} :
      x = .finish i → s.txs i = some t → t.prog = .ret (.ok a) → u.now = s.now →
      u.log = s.log ++ [⟨t.call, t.begun, s.now, a⟩] →
      u.store = overlay t.writes s.store → t.begun ≤ s.now →
      Completes P (G.key t.call) t.begun s.store [] (S.body t.call) t.writes (.ok a) →
      (∀ k, k ≠ G.key t.call → P.part k u.store = P.part k s.store) → Effect s x u

theorem Guarded.step_cases {s u : State S} {a : Action S} (h : G.Inv s)
    (hstep : step s a = some u) : G.Inv u ∧ G.Effect s a u := by
  cases a with
  | tick t =>
    simp only [step, Option.ite_none_right_eq_some, Option.some.injEq] at hstep
    obtain ⟨hle, rfl⟩ := hstep
    refine ⟨?_, .silent hle rfl rfl⟩
    intro i x hx
    have hi := h i x hx
    exact ⟨hi.begun_le.trans hle, hi.inside, hi.foreign, hi.reaches, hi.held⟩
  | begin i c =>
    simp only [step] at hstep
    split at hstep
    · cases hstep
      exact ⟨G.inv_begin h i c, .silent le_rfl rfl rfl⟩
    · cases hstep
  | exec i =>
    simp only [step] at hstep
    split at hstep
    · rename_i c b ws q next ht
      split at hstep
      · rename_i hfree
        split at hstep
        · rename_i r vs heval
          cases hstep
          exact ⟨G.inv_exec h ht hfree heval, .silent le_rfl rfl rfl⟩
        · cases hstep
          exact ⟨G.inv_close h i, .silent le_rfl rfl rfl⟩
      · cases hstep
    · cases hstep
  | abort i =>
    simp only [step] at hstep
    split at hstep
    · cases hstep
      exact ⟨G.inv_close h i, .silent le_rfl rfl rfl⟩
    · cases hstep
  | finish i =>
    simp only [step] at hstep
    split at hstep
    · rename_i c b ws a ht
      cases hstep
      have hi := h i _ ht
      refine ⟨G.inv_commit h ht rfl, .commit rfl ht rfl rfl rfl rfl hi.begun_le
        (hi.completes rfl) ?_⟩
      intro k hk
      exact (hi.foreign k hk).overlay s.store
    · cases hstep
      exact ⟨G.inv_close h i, .silent le_rfl rfl rfl⟩
    · cases hstep

end Patchli.Transaction
