import Patchli.Foundation.Machine
import Patchli.Orchestration.Steps

/-!
# Group semaphores

The channel of a group holds one element for each execution between its send to
the channel and its receive, and exists as soon as an execution uses it.
-/

namespace Patchli.Orchestration

open WorkerPool

/-- Between the send to the group's channel and the receive from it. -/
def Point.holdsSlot : Point → Bool
  | .sendCommand | .leaveSemaphore => true
  | _ => false

/-- The execution has looked the group's channel up and still needs it. -/
def Point.usesSemaphore : Point → Bool
  | .enterSemaphore | .sendCommand | .leaveSemaphore => true
  | _ => false

/-- The slots of group `g` that a worker holds. -/
def Worker.slots (w : Worker) (g : ℤ) : ℕ :=
  match w.phase with
  | .processJob p a => if p.holdsSlot ∧ a.job.groupID = g then 1 else 0
  | _ => 0

def WorkerPool.tokens (s : WorkerPool) (g : ℤ) : ℕ := (s.groupSemaphores g).getD 0

theorem tokens_setSemaphore (s : WorkerPool) (g g' : ℤ) (k : ℕ) :
    (s.setSemaphore g k).tokens g' = if g' = g then k else s.tokens g' := by
  unfold tokens setSemaphore
  by_cases h : g' = g
  · simp [h]
  · simp [h]

theorem moves_slots {s t : WorkerPool} {w w' : Worker} (h : Moves s w w' t) (g : ℤ) :
    s.tokens g + w'.slots g = t.tokens g + w.slots g := by
  cases h with
  | observeStop | receive | exit | conflict | acquired | paused | unpaused | inWindow | skipped
  | delayed | released => rfl
  | @lookedUp d a =>
    rw [tokens_setSemaphore]
    by_cases hg : g = a.job.groupID
    · subst hg
      simp [Worker.slots, Point.holdsSlot, tokens]
    · simp [Worker.slots, Point.holdsSlot, hg]
  | @entered d a k hk =>
    rw [tokens_setSemaphore]
    by_cases hg : g = a.job.groupID
    · subst hg
      simp [Worker.slots, Point.holdsSlot, tokens, hk]
    · simp [Worker.slots, Point.holdsSlot, hg, Ne.symm hg]
  | sent => rfl
  | @left d a k hk =>
    rw [tokens_setSemaphore]
    by_cases hg : g = a.job.groupID
    · subst hg
      simp [Worker.slots, Point.holdsSlot, tokens, hk]
    · simp [Worker.slots, Point.holdsSlot, hg, Ne.symm hg]

theorem occurs_groupSemaphores {s t : WorkerPool} {e : Event} (h : Occurs s e t) :
    t.groupSemaphores = s.groupSemaphores := by
  cases h <;> rfl

@[simp] theorem Worker.slots_wake (w : Worker) (g : ℤ) : w.wake.slots g = w.slots g :=
  Worker.wake_congr (f := fun w => w.slots g) (fun _ _ => rfl) w

theorem moves_groupSemaphores {s t : WorkerPool} {w w' : Worker} (h : Moves s w w' t) {g : ℤ}
    (hg : s.groupSemaphores g ≠ none) : t.groupSemaphores g ≠ none := by
  have hset (g' : ℤ) (k : ℕ) : (s.setSemaphore g' k).groupSemaphores g ≠ none := by
    unfold setSemaphore
    by_cases h : g = g'
    · simp [h]
    · simpa [h] using hg
  cases h with
  | lookedUp | entered | left => exact hset _ _
  | _ => exact hg

theorem moves_usesSemaphore {s t : WorkerPool} {w w' : Worker} {p : Point} {a : Accepted}
    (h : Moves s w w' t) (hw' : w'.phase = .processJob p a) (hp : p.usesSemaphore = true) :
    (∃ q, w.phase = .processJob q a ∧ q.usesSemaphore = true) ∨
      t.groupSemaphores a.job.groupID ≠ none := by
  cases h with
  | lookedUp =>
    cases hw'
    exact Or.inr (by simp [setSemaphore])
  | entered | sent =>
    cases hw'
    exact Or.inl ⟨_, rfl, rfl⟩
  | observeStop | exit | conflict | released => cases hw'
  | receive | acquired | paused | unpaused | inWindow | skipped | delayed | left =>
    cases hw'
    cases hp

variable {n : ℕ}

structure Paired (s : State n) : Prop where
  tokens : ∀ g, s.pool.tokens g = ∑ i, (s.workers i).slots g
  made : ∀ i p a, (s.workers i).phase = .processJob p a → p.usesSemaphore = true →
    s.pool.groupSemaphores a.job.groupID ≠ none

theorem Worker.wake_usesSemaphore {w : Worker} {p : Point} {a : Accepted}
    (h : w.wake.phase = .processJob p a) (hp : p.usesSemaphore = true) :
    w.phase = .processJob p a := by
  obtain ⟨d, ph⟩ := w
  unfold Worker.wake at h
  split at h
  · cases h
    cases hp
  · exact h

theorem paired_step {s u : State n} {x : Action n} (h : Steps s x u) (hs : Paired s) :
    Paired u := by
  have htokens {e : Event} {pool : WorkerPool} (hoccurs : Occurs s.pool e pool) (g : ℤ) :
      pool.tokens g = s.pool.tokens g := by
    rw [tokens, occurs_groupSemaphores hoccurs, tokens]
  cases h with
  | event hoccurs =>
    refine ⟨fun g => (htokens hoccurs g).trans (hs.tokens g), ?_⟩
    rw [occurs_groupSemaphores hoccurs]
    exact hs.made
  | broadcast hoccurs =>
    refine ⟨fun g => ?_, ?_⟩
    · simp only [Worker.slots_wake]
      exact (htokens hoccurs g).trans (hs.tokens g)
    · rw [occurs_groupSemaphores hoccurs]
      exact fun i p a hi hp => hs.made i p a (Worker.wake_usesSemaphore hi hp) hp
  | @worker k act w pool hmoves =>
    refine ⟨fun g => ?_, ?_⟩
    · have hsum := Threads.sum_update (fun v : Worker => v.slots g) s.workers k w
      have hmove := moves_slots hmoves g
      have htok := hs.tokens g
      dsimp only at hsum ⊢
      omega
    · intro i p a hi hp
      by_cases hik : i = k
      · subst hik
        simp only [Function.update_self] at hi
        rcases moves_usesSemaphore hmoves hi hp with ⟨q, hq, hqp⟩ | hmade
        · exact moves_groupSemaphores hmoves (hs.made i q a hq hqp)
        · exact hmade
      · simp only [Function.update_of_ne hik] at hi
        exact moves_groupSemaphores hmoves (hs.made i p a hi hp)

theorem paired_initial (n : ℕ) (now : Time) : Paired (State.initial n now) := by
  refine ⟨fun g => ?_, ?_⟩
  · simp [State.initial, WorkerPool.new, tokens, Worker.slots]
  · intro i p a hi
    cases hi

end Patchli.Orchestration
