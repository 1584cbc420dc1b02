import Patchli.Orchestration.Conservation
import Patchli.Webhooks.Notify

/-!
# What the pool reports

After `SendCommand` a worker calls `notifyWebhooks` with the result, before it leaves the
semaphore. The goroutines that this starts go on beside the workers.
-/

namespace Patchli.Orchestration

open WorkerPool Webhooks

/-- The payload for a finished execution. -/
def report : Accepted × Outcome → Option WebhookPayload
  | (a, .sendFailed) => some
    ⟨ascii "job_failed", ascii "Failed to communicate with agent.", a.job.id, a.job.nodeMac⟩
  | (a, .sent) => some
    ⟨ascii "job_started", ascii "Patch job dispatched successfully.", a.job.id, a.job.nodeMac⟩
  | _ => none

/-- The pool with the client of the webhooks. -/
structure Reporting (n : ℕ) where
  state : State n
  /-- The payload of the call of `notifyWebhooks` that a worker makes next. -/
  owed : Fin n → Option WebhookPayload
  /-- The calls of `notifyWebhooks`, a record. -/
  calls : List WebhookPayload
  client : Client

namespace Reporting

variable {n : ℕ}

def initial (n : ℕ) (now : Time) : Reporting n := ⟨.initial n now, fun _ => none, [], .new⟩

inductive Action (n : ℕ)
  | pool (e : Event)
  | worker (i : Fin n) (x : WorkerAct)
  | notify (i : Fin n)
  | client (x : Client.Act)

/-- What a worker reports after an operation. -/
def reported (s t : WorkerPool) : Option WebhookPayload :=
  (t.finished.drop s.finished.length).head?.bind report

section

variable (env : Environment) (canonicalAddr : Url.URL → GoString)

def step (s : Reporting n) : Action n → Option (Reporting n)
  | .pool e => (Orchestration.step s.state (.event e)).map fun t => { s with state := t }
  | .worker i x =>
    if s.owed i = none then
      (Orchestration.step s.state (.worker i x)).map fun t => { s with
        state := t
        owed := Function.update s.owed i (reported s.state.pool t.pool) }
    else none
  | .notify i => (s.owed i).map fun p => { s with
      owed := Function.update s.owed i none
      calls := s.calls ++ [p]
      client := s.client.start (notifyWebhooks env p) }
  | .client x => (s.client.act canonicalAddr x).map fun c => { s with client := c }

end

/-- The calls of `notifyWebhooks` that are still to be made. -/
def owing (s : Reporting n) : Multiset WebhookPayload := ∑ i, Multiset.ofList (s.owed i).toList

/-! ### One step -/

theorem report_of_not_dispatched {a : Accepted} {o : Outcome} (h : o.dispatched = false) :
    report (a, o) = none := by
  cases o <;> first | rfl | cases h

theorem moves_finished {s t : WorkerPool} {w w' : Worker} (h : Moves s w w' t) :
    t.finished.filterMap report = s.finished.filterMap report ++ (reported s t).toList := by
  have hsame (hfinished : t.finished = s.finished) :
      t.finished.filterMap report = s.finished.filterMap report ++ (reported s t).toList := by
    simp [reported, hfinished]
  have hfinish {a : Accepted} {o : Outcome} (hfinished : t.finished = s.finished ++ [(a, o)]) :
      t.finished.filterMap report = s.finished.filterMap report ++ (reported s t).toList := by
    cases hreport : report (a, o) <;> simp [reported, hfinished, hreport]
  cases h with
  | conflict | skipped | sent => exact hfinish rfl
  | _ => exact hsame rfl

theorem occurs_finished {s t : WorkerPool} {e : Event} (h : Occurs s e t) :
    t.finished.filterMap report = s.finished.filterMap report := by
  cases h with
  | dropped _ ho => simp [finish, List.filterMap_append, report_of_not_dispatched ho]
  | _ => rfl

theorem event_finished {s t : State n} {e : Event}
    (h : Orchestration.step s (.event e) = some t) :
    t.pool.finished.filterMap report = s.pool.finished.filterMap report := by
  cases step_steps h with
  | event hoccurs => exact occurs_finished hoccurs
  | broadcast hoccurs => exact occurs_finished hoccurs

theorem worker_finished {s t : State n} {i : Fin n} {x : WorkerAct}
    (h : Orchestration.step s (.worker i x) = some t) :
    t.pool.finished.filterMap report =
      s.pool.finished.filterMap report ++ (reported s.pool t.pool).toList := by
  cases step_steps h with
  | worker hmoves => exact moves_finished hmoves

/-! ### Runs -/

variable {env : Environment} {canonicalAddr : Url.URL → GoString} {s t : Reporting n}

/-- Every result of `SendCommand` is reported once, or a worker still owes the report; and
the client works on what the reports ask for. -/
structure Inv (env : Environment) (canonicalAddr : Url.URL → GoString) (s : Reporting n) : Prop where
  conserved : Conserved s.state
  reports : (s.calls : Multiset WebhookPayload) + s.owing =
    s.state.pool.finished.filterMap report
  started : s.client.started = s.calls.flatMap (notifyWebhooks env)
  client : Client.Inv canonicalAddr s.client

theorem inv_initial (now : Time) : Inv env canonicalAddr (initial n now) where
  conserved := run_conserved (Machine.run_nil _ _)
  reports := by simp [initial, owing, State.initial, WorkerPool.new]
  started := rfl
  client := Client.inv_new

theorem inv_step {x : Action n} (h : Inv env canonicalAddr s)
    (hstep : step env canonicalAddr s x = some t) : Inv env canonicalAddr t := by
  cases x with
  | pool e =>
    obtain ⟨u, hu, rfl⟩ := Option.map_eq_some_iff.mp hstep
    refine ⟨conserved_step (step_steps hu) h.conserved, ?_, h.started, h.client⟩
    rw [event_finished hu]
    exact h.reports
  | worker i x =>
    simp only [step, Option.ite_none_right_eq_some] at hstep
    obtain ⟨howed, hstep⟩ := hstep
    obtain ⟨u, hu, rfl⟩ := Option.map_eq_some_iff.mp hstep
    refine ⟨conserved_step (step_steps hu) h.conserved, ?_, h.started, h.client⟩
    have hsum := Threads.sum_update (fun o : Option WebhookPayload => Multiset.ofList o.toList)
      s.owed i (reported s.state.pool u.pool)
    simp only [howed, Option.toList_none, Multiset.coe_nil, zero_add] at hsum
    rw [worker_finished hu, ← Multiset.coe_add, ← h.reports]
    simp only [owing, hsum]
    abel
  | notify i =>
    obtain ⟨p, howed, rfl⟩ := Option.map_eq_some_iff.mp hstep
    refine ⟨h.conserved, ?_, ?_, Client.inv_start h.client _⟩
    · have hsum := Threads.sum_update (fun o : Option WebhookPayload => Multiset.ofList o.toList)
        s.owed i none
      simp only [howed, Option.toList_none, Option.toList_some, Multiset.coe_nil, zero_add] at hsum
      rw [← h.reports]
      simp only [owing, ← hsum, ← Multiset.coe_add]
      abel
    · simp [Client.start, h.started]
  | client x =>
    obtain ⟨c, hc, rfl⟩ := Option.map_eq_some_iff.mp hstep
    exact ⟨h.conserved, h.reports, (Client.started_act hc).trans h.started,
      Client.inv_act h.client hc⟩

theorem run_inv {now : Time} {as : List (Action n)}
    (hrun : Machine.run (step env canonicalAddr) (initial n now) as = some s) :
    Inv env canonicalAddr s :=
  Machine.run_invariant _ (fun _ _ _ => inv_step) (inv_initial now) hrun

theorem Inv.finished (h : Inv env canonicalAddr s) {p : WebhookPayload} (hp : p ∈ s.calls) :
    ∃ x ∈ s.state.pool.finished, report x = some p := by
  have hmem : p ∈ (s.calls : Multiset WebhookPayload) + s.owing :=
    Multiset.mem_add.mpr (Or.inl hp)
  rw [h.reports] at hmem
  exact List.mem_filterMap.mp hmem

theorem Inv.posted (h : Inv env canonicalAddr s) :
    (s.client.posts.map Post.request).Subperm (s.calls.flatMap (notifyWebhooks env)) := by
  rw [← h.started, ← Multiset.coe_le, h.client.places]
  exact (Multiset.le_add_left _ _).trans (Multiset.le_add_right _ _)

/-- Each result of `SendCommand` is reported by one call of `NotifyWebhooks`, and no other
end of a job is. A call leads to at most one POST for each configured URL that the filter
admits. The receiver decodes the report of a finished job, and the POST takes a connection
that was opened for its scheme and host by dialing a public address. -/
theorem jobs_reported_once {now : Time} {as : List (Action n)}
    (hrun : Machine.run (step env canonicalAddr) (initial n now) as = some s) :
    ((s.calls : Multiset WebhookPayload) + s.owing = s.state.pool.finished.filterMap report ∧
      (s.state.pool.finished.map Prod.fst).Nodup) ∧
    (s.client.posts.map Post.request).Subperm (s.calls.flatMap (notifyWebhooks env)) ∧
    (∀ q ∈ s.client.posts, q.request.url ∈ env.urls ∧ isValidURL q.request.url = true ∧
      (∃ x ∈ s.state.pool.finished, ∃ p, report x = some p ∧
        decodePayload q.request.body = some p.delivered) ∧
      (∃ u, Url.parse q.request.url = some u ∧ q.conn.scheme = u.scheme ∧
        q.conn.address = canonicalAddr u) ∧ q.conn.dial ∈ s.client.dials) ∧
    ∀ d ∈ s.client.dials, Client.ToPublic d := by
  have h := run_inv hrun
  refine ⟨⟨h.reports, h.conserved.nodup_finished⟩, h.posted, fun q hq => ?_, h.client.dials⟩
  have hmem : q.request ∈ s.calls.flatMap (notifyWebhooks env) :=
    h.posted.subset (List.mem_map_of_mem hq)
  obtain ⟨p, hp, hrequest⟩ := List.mem_flatMap.mp hmem
  obtain ⟨hurl, -, hvalid, hbody⟩ := mem_notifyWebhooks.mp hrequest
  obtain ⟨x, hx, hreport⟩ := h.finished hp
  obtain ⟨hconn, hopened⟩ := h.client.posts q hq
  refine ⟨hurl, hvalid, ⟨x, hx, p, hreport, ?_⟩, hopened, h.client.conns _ hconn⟩
  rw [hbody]
  exact decodePayload_marshal p

private def hookEnv : Environment := ⟨ascii "https://hooks.example.org/a", [], []⟩

private def hookConn : Conn :=
  ⟨ascii "https", ascii "hooks.example.org:443", ⟨ascii "tcp", ascii "1.1.1.1:443"⟩⟩

/-- A job for a node without a connection fails, and the failure is reported. -/
private def failedOnce : List (Action 1) :=
  [.pool (.submit (plainJob (ascii "j") (ascii "aa") 1 none)), .worker 0 .receive] ++
    List.replicate 6 (.worker 0 (.process unsignedIO)) ++
    [.notify 0, .client (.dial 0 ⟨fun _ => .ok [[1, 1, 1, 1]], fun _ => .ok ()⟩),
      .client (.post 0 hookConn)]

theorem jobs_reported_once_failed :
    ∃ s, Machine.run (step hookEnv fun u => u.host ++ ascii ":443") (initial 1 0) failedOnce =
        some s ∧ s.client.posts.map Post.conn = [hookConn] ∧
      (s.client.posts.map Post.request).Subperm (s.calls.flatMap (notifyWebhooks hookEnv)) := by
  have hrun : (Machine.run (step hookEnv fun u => u.host ++ ascii ":443") (initial 1 0)
      failedOnce).any (fun s => decide (s.client.posts.map Post.conn = [hookConn])) = true := by
    decide +kernel
  simp only [Option.any_eq_true, decide_eq_true_eq] at hrun
  obtain ⟨s, hs, hposts⟩ := hrun
  exact ⟨s, hs, hposts, (jobs_reported_once hs).2.1⟩

end Reporting

end Patchli.Orchestration
