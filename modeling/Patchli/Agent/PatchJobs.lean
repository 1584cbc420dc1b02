import Patchli.Agent.Authenticity
import Patchli.Agent.JobState
import Patchli.Foundation.Machine

/-!
# Interrupted patch jobs

All executions of `apply_updates` keep their state in one file. They take turns, one file
operation at a time, and the process may be killed after any of them. Saving the state
does not fail.
-/

namespace Patchli.Agent

inductive JobPhase
  /-- The check and the script before `SaveState`. -/
  | preparing
  /-- In `SaveState`; the handle leads to file `i`, which holds `off` bytes. -/
  | saving (i off : ℕ)
  /-- `SaveState` has returned. -/
  | applying
  | finished
  deriving DecidableEq

structure PatchJob where
  cmd : CommandPayload
  phase : JobPhase

inductive JobAct
  /-- The check or the script fails. -/
  | fail
  | openFile
  /-- The next `n` bytes are written. -/
  | write (n : ℕ)
  | close
  /-- The deferred `ClearState`. -/
  | clear

/-- What `executeCommand` saves. -/
def runningState (cmd : CommandPayload) : JobState :=
  ⟨cmd.id, cmd.action, none, ascii "running", 0⟩

def PatchJob.data (j : PatchJob) : GoString := (runningState j.cmd).marshal

def PatchJob.act (j : PatchJob) (files : Files GoString) (x : JobAct) :
    Option (PatchJob × Files GoString) :=
  match j.phase, x with
  | .preparing, .fail => some ({ j with phase := .finished }, files)
  | .preparing, .openFile =>
    let (i, files) := files.openTruncate stateFile 0o600
    some ({ j with phase := .saving i 0 }, files)
  | .saving i off, .write n =>
    if off + n ≤ j.data.length then
      some ({ j with phase := .saving i (off + n) },
        files.write i off ((j.data.drop off).take n))
    else none
  | .saving _ off, .close =>
    if off = j.data.length then some ({ j with phase := .applying }, files) else none
  | .applying, .clear => some ({ j with phase := .finished }, files.remove stateFile)
  | _, _ => none

structure PatchJobs where
  files : Files GoString
  jobs : List PatchJob

inductive PatchAct
  /-- `executeCommand` starts with the command of a message or of a poll response. -/
  | execute (a : Input)
  | job (k : ℕ) (x : JobAct)
  /-- `SelfDestruct` removes the directory of the state file. -/
  | selfDestruct

/-- Only `apply_updates` has a state. -/
def PatchJobs.execute (s : PatchJobs) (cmd : CommandPayload) : PatchJobs :=
  if cmd.action = ascii "apply_updates" then { s with jobs := s.jobs ++ [⟨cmd, .preparing⟩] }
  else s

def PatchJobs.step (s : PatchJobs) : PatchAct → Option PatchJobs
  | .execute a => a.command.map s.execute
  | .job k x => s.jobs[k]?.bind fun j =>
    (j.act s.files x).map fun r => ⟨r.2, s.jobs.set k r.1⟩
  | .selfDestruct => some { s with files := s.files.remove stateFile }

/-- A process that has just started, with what an earlier one has left. -/
def PatchJobs.init (files : Files GoString) : PatchJobs := ⟨files, []⟩

/-- What `RunAgent` reports after a restart is a job that was interrupted. -/
def PatchJobs.Detectable (s : PatchJobs) : Prop :=
  ∃ st, loadState s.files = .ok (some st) ∧ st.status = ascii "running" ∧
    ∃ j ∈ s.jobs, j.phase ≠ .finished ∧ st.jobID = j.cmd.id

/-- The job owns the state file. -/
def PatchJob.active (j : PatchJob) : Bool :=
  match j.phase with
  | .saving _ _ | .applying => true
  | _ => false

/-- The state file is opened, and its directory is removed, only while no job owns it. -/
def Alone (s : PatchJobs) : PatchAct → Prop
  | .job _ .openFile | .selfDestruct => ∀ j ∈ s.jobs, j.active = false
  | _ => True

instance (s : PatchJobs) : ∀ x, Decidable (Alone s x)
  | .job _ .openFile | .selfDestruct => inferInstanceAs (Decidable (∀ j ∈ s.jobs, _))
  | .execute _ | .job _ .fail | .job _ (.write _) | .job _ .close | .job _ .clear =>
    isTrue trivial

/-! ### The file of an active job -/

/-- What the state file holds of a job. -/
def PatchJob.Recorded (j : PatchJob) (files : Files GoString) : Prop :=
  match j.phase with
  | .saving i off => files.entries stateFile = some i ∧ off ≤ j.data.length ∧
      (files.file i).data = j.data.take off
  | .applying => ∃ i, files.entries stateFile = some i ∧ (files.file i).data = j.data
  | _ => True

variable {j j' : PatchJob} {files files' : Files GoString} {x : JobAct}

theorem recorded_of_inactive (h : j.active = false) (files : Files GoString) :
    j.Recorded files := by
  unfold PatchJob.Recorded
  cases hphase : j.phase with
  | preparing | finished => trivial
  | saving i off | applying =>
    rw [PatchJob.active, hphase] at h
    cases h

theorem recorded_openTruncate (j : PatchJob) (files : Files GoString) (mode : ℕ) :
    PatchJob.Recorded { j with phase := .saving (files.openTruncate stateFile mode).1 0 }
      (files.openTruncate stateFile mode).2 := by
  unfold Files.openTruncate
  cases hentry : files.entries stateFile with
  | none => simp [PatchJob.Recorded]
  | some i => simp [PatchJob.Recorded, Files.truncate, hentry]

/-- An operation of a job keeps its own record, and touches nothing unless the job is active
or opens the file. -/
theorem act_recorded (hj : j.Recorded files) (h : j.act files x = some (j', files')) :
    j'.cmd = j.cmd ∧ j'.Recorded files' ∧
      (j.active = true ∨ x = .openFile ∨ j'.active = false ∧ files' = files) := by
  unfold PatchJob.act at h
  split at h
  · cases h
    exact ⟨rfl, trivial, Or.inr (Or.inr ⟨rfl, rfl⟩)⟩
  · cases h
    exact ⟨rfl, recorded_openTruncate j files _, Or.inr (Or.inl rfl)⟩
  · rename_i i off n hphase
    split_ifs at h with hlength
    cases h
    simp only [PatchJob.Recorded, hphase] at hj
    obtain ⟨hentry, hoff, hdata⟩ := hj
    refine ⟨rfl, ⟨hentry, hlength, ?_⟩, Or.inl (by simp [PatchJob.active, hphase])⟩
    simp only [Files.write, Files.file_modify, Function.update_self, hdata]
    exact Files.splice_take hoff n
  · rename_i i off hphase
    split_ifs at h with hlength
    cases h
    simp only [PatchJob.Recorded, hphase] at hj
    obtain ⟨hentry, -, hdata⟩ := hj
    rw [hlength, List.take_length] at hdata
    exact ⟨rfl, ⟨i, hentry, hdata⟩, Or.inl (by simp [PatchJob.active, hphase])⟩
  · rename_i hphase
    cases h
    exact ⟨rfl, trivial, Or.inl (by simp [PatchJob.active, hphase])⟩
  · cases h

/-! ### Runs -/

/-- One job at a time owns the state file, and its state is there. -/
structure OneOwner (s : PatchJobs) : Prop where
  wellEncoded : ∀ j ∈ s.jobs, Cmdsign.WellEncoded j.cmd
  owner : ∀ (k l : ℕ) (j j' : PatchJob), s.jobs[k]? = some j → s.jobs[l]? = some j' →
    j.active = true → j'.active = true → k = l
  recorded : ∀ j ∈ s.jobs, j.Recorded s.files

variable {s t : PatchJobs} {a : PatchAct}

theorem oneOwner_execute (hs : OneOwner s) {cmd : CommandPayload}
    (hcmd : Cmdsign.WellEncoded cmd) : OneOwner (s.execute cmd) := by
  unfold PatchJobs.execute
  split_ifs
  · have hlast {k : ℕ} {j : PatchJob} (hk : (s.jobs ++ [⟨cmd, .preparing⟩])[k]? = some j)
        (hj : j.active = true) : s.jobs[k]? = some j := by
      rcases lt_or_ge k s.jobs.length with hlt | hge
      · rwa [List.getElem?_append_left hlt] at hk
      · rw [List.getElem?_append_right hge] at hk
        obtain rfl := List.mem_singleton.mp (List.mem_of_getElem? hk)
        cases hj
    constructor
    · intro j hj
      rcases List.mem_append.mp hj with hj | hj
      · exact hs.wellEncoded j hj
      · obtain rfl := List.mem_singleton.mp hj
        exact hcmd
    · intro k l j j' hk hl hj hj'
      exact hs.owner k l j j' (hlast hk hj) (hlast hl hj') hj hj'
    · intro j hj
      rcases List.mem_append.mp hj with hj | hj
      · exact hs.recorded j hj
      · obtain rfl := List.mem_singleton.mp hj
        trivial
  · exact hs

theorem OneOwner.with_files (hs : OneOwner s) (h : ∀ j ∈ s.jobs, j.active = false)
    (files : Files GoString) : OneOwner { s with files := files } where
  wellEncoded := hs.wellEncoded
  owner := hs.owner
  recorded j hj := recorded_of_inactive (h j hj) files

theorem getElem?_set_cases {jobs : List PatchJob} {k l : ℕ} {j₂ : PatchJob}
    (hk : jobs[k]? = some j) (hl : (jobs.set k j')[l]? = some j₂) :
    l = k ∧ j₂ = j' ∨ l ≠ k ∧ jobs[l]? = some j₂ := by
  by_cases hlk : l = k
  · subst hlk
    rw [List.getElem?_set_self (List.getElem?_eq_some_iff.mp hk).1] at hl
    exact Or.inl ⟨rfl, (Option.some.inj hl).symm⟩
  · rw [List.getElem?_set_ne (Ne.symm hlk)] at hl
    exact Or.inr ⟨hlk, hl⟩

theorem untouched_beside_active (hs : OneOwner s) {k l : ℕ} {j₂ : PatchJob}
    (hC : Alone s (.job k x)) (hk : s.jobs[k]? = some j)
    (h : j.act s.files x = some (j', files')) (hlk : l ≠ k) (hl : s.jobs[l]? = some j₂)
    (hactive : j₂.active = true) : j'.active = false ∧ files' = s.files := by
  obtain ⟨-, -, hown | rfl | hsame⟩ := act_recorded (hs.recorded j (List.mem_of_getElem? hk)) h
  · exact absurd (hs.owner l k j₂ j hl hk hactive hown) hlk
  · rw [hC j₂ (List.mem_of_getElem? hl)] at hactive
    cases hactive
  · exact hsame

theorem oneOwner_job (hs : OneOwner s) {k : ℕ} (hC : Alone s (.job k x))
    (hk : s.jobs[k]? = some j) (h : j.act s.files x = some (j', files')) :
    OneOwner ⟨files', s.jobs.set k j'⟩ := by
  have hj := List.mem_of_getElem? hk
  obtain ⟨hcmd, hrecorded, -⟩ := act_recorded (hs.recorded j hj) h
  constructor
  · intro j₂ hj₂
    rcases List.mem_or_eq_of_mem_set hj₂ with hj₂ | rfl
    · exact hs.wellEncoded j₂ hj₂
    · rw [hcmd]
      exact hs.wellEncoded j hj
  · intro l m j₁ j₂ hl hm hj₁ hj₂
    rcases getElem?_set_cases hk hl with ⟨hlk, rfl⟩ | ⟨hlk, hl'⟩
    · rcases getElem?_set_cases hk hm with ⟨hmk, -⟩ | ⟨hmk, hm'⟩
      · rw [hlk, hmk]
      · rw [(untouched_beside_active hs hC hk h hmk hm' hj₂).1] at hj₁
        cases hj₁
    · rcases getElem?_set_cases hk hm with ⟨hmk, rfl⟩ | ⟨hmk, hm'⟩
      · rw [(untouched_beside_active hs hC hk h hlk hl' hj₁).1] at hj₂
        cases hj₂
      · exact hs.owner l m j₁ j₂ hl' hm' hj₁ hj₂
  · intro j₂ hj₂
    obtain ⟨l, hl⟩ := List.getElem?_of_mem hj₂
    rcases getElem?_set_cases hk hl with ⟨-, rfl⟩ | ⟨hlk, hl'⟩
    · exact hrecorded
    · cases hactive : j₂.active with
      | false => exact recorded_of_inactive hactive files'
      | true =>
        dsimp only
        rw [(untouched_beside_active hs hC hk h hlk hl' hactive).2]
        exact hs.recorded j₂ (List.mem_of_getElem? hl')

theorem oneOwner_step (hs : OneOwner s) (hC : Alone s a) (h : s.step a = some t) :
    OneOwner t := by
  cases a with
  | execute a =>
    obtain ⟨cmd, hcmd, rfl⟩ := Option.map_eq_some_iff.mp h
    exact oneOwner_execute hs (wellEncoded_command hcmd)
  | job k x =>
    obtain ⟨j, hk, h⟩ := Option.bind_eq_some_iff.mp h
    obtain ⟨⟨j', files'⟩, hact, rfl⟩ := Option.map_eq_some_iff.mp h
    exact oneOwner_job hs hC hk hact
  | selfDestruct =>
    cases h
    exact hs.with_files hC _

theorem oneOwner_init (files : Files GoString) : OneOwner (.init files) where
  wellEncoded := nofun
  owner _ _ _ _ hk := nomatch hk
  recorded := nofun

theorem wellEncoded_runningState {cmd : CommandPayload} (h : Cmdsign.WellEncoded cmd) :
    (runningState cmd).WellEncoded where
  jobID := h.id
  action := h.action
  packages := nofun
  status := show Utf8.Valid (ascii "running") by decide

/-- As soon as a step takes the file of a job that is applying updates, that job is lost. -/
theorem undetectable_of_not_alone (hs : OneOwner s) (happlying : ∃ j ∈ s.jobs, j.phase = .applying)
    (hC : ¬ Alone s a) (h : s.step a = some t) :
    (∃ j ∈ t.jobs, j.phase = .applying) ∧ ¬ t.Detectable := by
  obtain ⟨j, hj, hphase⟩ := happlying
  have hrecorded := hs.recorded j hj
  simp only [PatchJob.Recorded, hphase] at hrecorded
  obtain ⟨i, hentry, -⟩ := hrecorded
  cases a with
  | execute a => exact absurd trivial hC
  | selfDestruct =>
    cases h
    refine ⟨⟨j, hj, hphase⟩, ?_⟩
    rintro ⟨st, hload, -⟩
    rw [loadState_none (by simp)] at hload
    cases hload
  | job k x =>
    cases x with
    | fail | write n | close | clear => exact absurd trivial hC
    | openFile =>
      obtain ⟨j₂, hk, h⟩ := Option.bind_eq_some_iff.mp h
      obtain ⟨⟨j', files'⟩, hact, rfl⟩ := Option.map_eq_some_iff.mp h
      obtain ⟨l, hl⟩ := List.getElem?_of_mem hj
      cases hphase' : j₂.phase with
      | saving i off | applying | finished =>
        simp only [PatchJob.act, hphase', reduceCtorEq] at hact
      | preparing =>
        simp only [PatchJob.act, hphase', Files.openTruncate, hentry, Option.some.injEq,
          Prod.mk.injEq] at hact
        obtain ⟨-, rfl⟩ := hact
        have hlk : l ≠ k := by
          rintro rfl
          rw [Option.some.inj (hl.symm.trans hk), hphase'] at hphase
          cases hphase
        refine ⟨⟨j, ?_, hphase⟩, ?_⟩
        · rw [← List.getElem?_set_ne (Ne.symm hlk)] at hl
          exact List.mem_of_getElem? hl
        · rintro ⟨st, hload, -⟩
          rw [loadState_empty (i := i) (by simpa [Files.truncate] using hentry)
            (by simp [Files.truncate])] at hload
          cases hload

/-- While jobs take the state file one after the other, a job that was interrupted is
detected. -/
theorem interrupted_job_detectable {as : List PatchAct}
    (hC : Machine.Meets PatchJobs.step Alone (.init files) as)
    (hrun : Machine.run PatchJobs.step (.init files) as = some s)
    (happlying : ∃ j ∈ s.jobs, j.phase = .applying) : s.Detectable := by
  have hs : OneOwner s := Machine.run_invariant_of_meets PatchJobs.step
    (fun _ _ _ hs hC h => oneOwner_step hs hC h) (oneOwner_init files) hC hrun
  obtain ⟨j, hj, hphase⟩ := happlying
  have hrecorded := hs.recorded j hj
  simp only [PatchJob.Recorded, hphase] at hrecorded
  obtain ⟨i, hentry, hdata⟩ := hrecorded
  have hencoded := wellEncoded_runningState (hs.wellEncoded j hj)
  exact ⟨runningState j.cmd, loadState_marshal hentry hdata hencoded, rfl, j, hj,
    by simp [hphase], rfl⟩

private def applyUpdates (id : GoString) : Input :=
  .message (some (Wire.writeJSON (Wire.envelope
    ⟨id, ascii "apply_updates", none, [], [], [], [], 0, []⟩)))

/-- A job saves its state in two writes. -/
private def saves (k : ℕ) : List PatchAct :=
  [.job k .openFile, .job k (.write 40), .job k (.write 50), .job k .close]

theorem interrupted_job_detectable_one :
    ∃ s, Machine.run PatchJobs.step (.init .empty)
        (.execute (applyUpdates (ascii "j1")) :: saves 0) = some s ∧ s.Detectable := by
  have heval : Machine.Meets PatchJobs.step Alone (.init .empty)
        (.execute (applyUpdates (ascii "j1")) :: saves 0) ∧
      (Machine.run PatchJobs.step (.init .empty)
        (.execute (applyUpdates (ascii "j1")) :: saves 0)).any
          (fun s => ∃ j ∈ s.jobs, j.phase = .applying) = true := by
    decide +kernel
  obtain ⟨hC, hrun⟩ := heval
  simp only [Option.any_eq_true, decide_eq_true_eq] at hrun
  obtain ⟨s, hs, happlying⟩ := hrun
  exact ⟨s, hs, interrupted_job_detectable hC hs happlying⟩

/-- Two jobs save their states, and the first one to finish removes the file. -/
private def overlapping : List PatchAct :=
  [.execute (applyUpdates (ascii "j1")), .execute (applyUpdates (ascii "j2"))] ++ saves 0 ++
    saves 1 ++ [.job 0 .clear]

theorem overlapping_job_undetectable :
    ¬ ∀ (files : Files GoString) (as : List PatchAct) (s : PatchJobs),
      Machine.run PatchJobs.step (.init files) as = some s →
      (∃ j ∈ s.jobs, j.phase = .applying) → s.Detectable := by
  intro h
  have heval : (Machine.run PatchJobs.step (.init .empty) overlapping).any
      (fun s => (∃ j ∈ s.jobs, j.phase = .applying) ∧ s.files.entries stateFile = none) = true := by
    decide +kernel
  simp only [Option.any_eq_true, decide_eq_true_eq] at heval
  obtain ⟨s, hrun, happlying, hnone⟩ := heval
  obtain ⟨st, hload, -⟩ := h .empty overlapping s hrun happlying
  rw [loadState_none hnone] at hload
  cases hload

end Patchli.Agent
