import Patchli.Agent.Manifest
import Patchli.Agent.Run
import Patchli.Foundation.Files

/-!
# Self-update

`performSecureAgentUpdateFunc`, one operation at a time: each may fail, the server answers
as it likes, and a crash may come between any two operations.
-/

namespace Patchli.Agent

inductive UpdateName
  /-- `os.Executable()` -/
  | agent
  /-- The agent's path with `.bak.` and the time. -/
  | backup (unix : Int64)
  /-- `patchli-agent-*`, with what `CreateTemp` chose for the star. -/
  | temp (k : ℕ)
  deriving DecidableEq

inductive FetchError
  | noResponse
  /-- `HTTP %d` -/
  | http (statusCode : ℕ)
  /-- `response too large` -/
  | tooLarge
  deriving DecidableEq

inductive UpdateError
  /-- `failed to download manifest` -/
  | manifest (err : FetchError)
  /-- `failed to download manifest signature` -/
  | signature (err : FetchError)
  /-- `manifest verification failed` -/
  | verification (err : ManifestError)
  /-- `HTTP %d during agent download` -/
  | http (statusCode : ℕ)
  /-- `binary size %d does not match manifest size %d` -/
  | size (n : ℕ) (size : Int64)
  /-- `binary hash does not match signed manifest` -/
  | hash
  /-- `failed to determine executable path` -/
  | executable
  /-- The error of a request, of a file operation or of the copying. -/
  | operation
  deriving DecidableEq

inductive UpdateEnd
  /-- An error before the restart. -/
  | failed (err : UpdateError)
  /-- The error of the second rename, when the rollback has failed as well. -/
  | rollbackFailed (unix : Int64)
  | restarted (ok : Bool)
  deriving DecidableEq

/-- What `performSecureAgentUpdateFunc` does next. -/
inductive UpdatePhase
  | fetchManifest
  | fetchSignature (manifestBytes : GoString)
  | request (m : AgentManifest)
  | createTemp (m : AgentManifest)
  /-- The handle leads to file `i`, and `hashed` is what the hasher was given. -/
  | copy (m : AgentManifest) (k i : ℕ) (hashed : GoString)
  | close (m : AgentManifest) (k : ℕ) (hashed : GoString)
  | chmod (k : ℕ)
  | executable (k : ℕ)
  | backUp (k : ℕ)
  | install (k : ℕ) (unix : Int64)
  | rollback (k : ℕ) (unix : Int64)
  | restart (k : ℕ)
  /-- The deferred `Remove`, before the result is returned. -/
  | cleanup (k : ℕ) (result : UpdateEnd)
  | returned (result : UpdateEnd)
  deriving DecidableEq

structure Update where
  files : Files UpdateName
  phase : UpdatePhase

inductive UpdateAct
  /-- The response to a request of `fetchLimited`, if there is one. -/
  | responds (resp : Option Response)
  /-- The status of the download. -/
  | downloads (statusCode : ℕ)
  /-- `CreateTemp`, with the mode that the process may give a file. -/
  | creates (k mode : ℕ)
  /-- `io.Copy` has read some bytes, and writes them. -/
  | copies (bytes : GoString)
  /-- It reads no more, or only these bytes of what it has read were written. -/
  | copyFails (written : GoString)
  /-- The first rename, and the time. -/
  | renames (unix : Int64)
  | done
  | fails

def maxManifestBytes : ℕ := 64 * 1024

def fetchLimited (limit : ℕ) (resp : Option Response) : Except FetchError GoString :=
  match resp with
  | none => .error .noResponse
  | some resp =>
    if resp.statusCode ≠ statusOK then .error (.http resp.statusCode)
    else if limit < resp.body.length then .error .tooLarge
    else .ok resp.body

section

variable (E : Ed25519) (r : Release) (sha256 : GoString → GoString) (currentVersion : GoString)

/-- The checks after the download; `none` when the binary is the one of the manifest. -/
def checkBinary (m : AgentManifest) (data : GoString) : Option UpdateError :=
  if (data.length : ℤ) ≠ m.size.toInt then some (.size data.length m.size)
  else if m.sha256.equalFold (sha256 data).hexEncode = false then some .hash
  else none

def Update.step (s : Update) (a : UpdateAct) : Option Update :=
  match s.phase, a with
  | .fetchManifest, .responds resp =>
    match fetchLimited maxManifestBytes resp with
    | .error err => some { s with phase := .returned (.failed (.manifest err)) }
    | .ok manifestBytes => some { s with phase := .fetchSignature manifestBytes }
  | .fetchSignature manifestBytes, .responds resp =>
    match fetchLimited maxManifestBytes resp with
    | .error err => some { s with phase := .returned (.failed (.signature err)) }
    | .ok sigBytes =>
      match verifyManifest E r manifestBytes sigBytes currentVersion with
      | .error err => some { s with phase := .returned (.failed (.verification err)) }
      | .ok m => some { s with phase := .request m }
  | .request m, .downloads statusCode =>
    if statusCode ≠ statusOK then
      some { s with phase := .returned (.failed (.http statusCode)) }
    else some { s with phase := .createTemp m }
  | .request _, .fails | .createTemp _, .fails =>
    some { s with phase := .returned (.failed .operation) }
  | .createTemp m, .creates k mode =>
    if s.files.entries (.temp k) = none then
      some ⟨s.files.create (.temp k) mode, .copy m k s.files.fresh []⟩
    else none
  | .copy m k i hashed, .copies bytes =>
    -- never more than the signed size and one byte
    if (hashed.length + bytes.length : ℤ) ≤ m.size.toInt + 1 then
      some ⟨s.files.write i hashed.length bytes, .copy m k i (hashed ++ bytes)⟩
    else none
  | .copy _ k i hashed, .copyFails written =>
    some ⟨s.files.write i hashed.length written, .cleanup k (.failed .operation)⟩
  | .copy m k _ hashed, .done => some { s with phase := .close m k hashed }
  | .close m k hashed, .done =>
    match checkBinary sha256 m hashed with
    | some err => some { s with phase := .cleanup k (.failed err) }
    | none => some { s with phase := .chmod k }
  | .chmod k, .done => (s.files.entries (.temp k)).map fun i =>
    ⟨s.files.modify i fun f => { f with mode := 0o755 }, .executable k⟩
  | .executable k, .done => some { s with phase := .backUp k }
  | .executable k, .fails => some { s with phase := .cleanup k (.failed .executable) }
  | .close _ k _, .fails | .chmod k, .fails | .backUp k, .fails =>
    some { s with phase := .cleanup k (.failed .operation) }
  | .backUp k, .renames unix =>
    match s.files.rename .agent (.backup unix) with
    | some files => some ⟨files, .install k unix⟩
    -- that there is no agent is no error
    | none => some { s with phase := .install k unix }
  | .install k _, .done => (s.files.rename (.temp k) .agent).map fun files => ⟨files, .restart k⟩
  | .install k unix, .fails => some { s with phase := .rollback k unix }
  | .rollback k unix, .done => (s.files.rename (.backup unix) .agent).map fun files =>
    ⟨files, .cleanup k (.failed .operation)⟩
  | .rollback k unix, .fails => some { s with phase := .cleanup k (.rollbackFailed unix) }
  | .restart k, .done => some { s with phase := .cleanup k (.restarted true) }
  | .restart k, .fails => some { s with phase := .cleanup k (.restarted false) }
  | .cleanup k result, .done => some ⟨s.files.remove (.temp k), .returned result⟩
  | .cleanup _ result, .fails => some { s with phase := .returned result }
  | _, _ => none

def Update.init (files : Files UpdateName) : Update := ⟨files, .fetchManifest⟩

/-! ### What an update knows -/

def Accepted (m : AgentManifest) : Prop :=
  ∃ manifestBytes sigBytes, verifyManifest E r manifestBytes sigBytes currentVersion = .ok m

/-- The complete binary of an accepted manifest. -/
def CompleteBinary (data : GoString) : Prop :=
  ∃ m, Accepted E r currentVersion m ∧ (data.length : ℤ) = m.size.toInt ∧
    m.sha256.equalFold (sha256 data).hexEncode = true

/-- The name leads to such a binary, and everyone may execute it. -/
def ValidAgent (files : Files UpdateName) (n : UpdateName) : Prop :=
  ∃ f, files.lookup n = some f ∧ f.mode = 0o755 ∧ CompleteBinary E r sha256 currentVersion f.data

/-- The backup has taken the agent's place. -/
def BackedUp (original : File) (files : Files UpdateName) (unix : Int64) : Prop :=
  files.lookup .agent = none ∧ files.lookup (.backup unix) = some original

def UpdateEnd.Safe (original : File) (files : Files UpdateName) : UpdateEnd → Prop
  | .failed _ => files.lookup .agent = some original
  | .rollbackFailed unix => BackedUp original files unix
  | .restarted _ => ValidAgent E r sha256 currentVersion files .agent

/-- What holds before each operation. -/
def Update.Safe (original : File) (s : Update) : Prop :=
  match s.phase with
  | .fetchManifest | .fetchSignature _ => s.files.lookup .agent = some original
  | .request m | .createTemp m =>
    s.files.lookup .agent = some original ∧ Accepted E r currentVersion m
  | .copy m k i hashed => s.files.lookup .agent = some original ∧ Accepted E r currentVersion m ∧
      s.files.entries (.temp k) = some i ∧ (s.files.file i).data = hashed
  | .close m k hashed => s.files.lookup .agent = some original ∧ Accepted E r currentVersion m ∧
      ∃ f, s.files.lookup (.temp k) = some f ∧ f.data = hashed
  | .chmod k => s.files.lookup .agent = some original ∧
      ∃ f, s.files.lookup (.temp k) = some f ∧ CompleteBinary E r sha256 currentVersion f.data
  | .executable k | .backUp k => s.files.lookup .agent = some original ∧
      ValidAgent E r sha256 currentVersion s.files (.temp k)
  | .install k unix => BackedUp original s.files unix ∧
      ValidAgent E r sha256 currentVersion s.files (.temp k)
  | .rollback _ unix => BackedUp original s.files unix
  | .restart _ => ValidAgent E r sha256 currentVersion s.files .agent
  | .cleanup _ result | .returned result => result.Safe E r sha256 currentVersion original s.files

end

/-- The backup that stands in for the agent: between the renames, and after the second one
and the rollback have both failed. -/
def UpdatePhase.backup : UpdatePhase → Option Int64
  | .install _ unix | .rollback _ unix | .cleanup _ (.rollbackFailed unix)
  | .returned (.rollbackFailed unix) => some unix
  | _ => none

/-! ### Runs -/

variable {E : Ed25519} {r : Release} {sha256 : GoString → GoString} {currentVersion : GoString}
  {original : File} {s t : Update} {a : UpdateAct}

theorem ValidAgent.congr {files files' : Files UpdateName} {m n : UpdateName}
    (h : ValidAgent E r sha256 currentVersion files m) (heq : files'.lookup n = files.lookup m) :
    ValidAgent E r sha256 currentVersion files' n := by
  obtain ⟨f, hf, hvalid⟩ := h
  exact ⟨f, heq.trans hf, hvalid⟩

theorem completeBinary_of_check {m : AgentManifest} {data : GoString}
    (hm : Accepted E r currentVersion m) (h : checkBinary sha256 m data = none) :
    CompleteBinary E r sha256 currentVersion data := by
  unfold checkBinary at h
  split_ifs at h with hsize hhash
  exact ⟨m, hm, not_not.mp hsize, by simpa using hhash⟩

theorem safe_remove {files : Files UpdateName} {k : ℕ} {result : UpdateEnd}
    (h : result.Safe E r sha256 currentVersion original files) :
    result.Safe E r sha256 currentVersion original (files.remove (.temp k)) := by
  have hagent : (files.remove (.temp k)).lookup .agent = files.lookup .agent :=
    Files.lookup_remove_of_ne nofun
  have hbackup (unix : Int64) :
      (files.remove (.temp k)).lookup (.backup unix) = files.lookup (.backup unix) :=
    Files.lookup_remove_of_ne nofun
  cases result with
  | failed err => exact hagent.trans h
  | rollbackFailed unix => exact ⟨hagent.trans h.1, (hbackup unix).trans h.2⟩
  | restarted ok => exact h.congr hagent

theorem lookup_agent_modify {files : Files UpdateName} {k i : ℕ}
    (hentry : files.entries (.temp k) = some i) (f : File → File) :
    (files.modify i f).lookup .agent = files.lookup .agent :=
  Files.lookup_modify_of_ne f hentry nofun

theorem safe_copies {m : AgentManifest} {k i : ℕ} {hashed : GoString}
    (hs : s.Safe E r sha256 currentVersion original) (hphase : s.phase = .copy m k i hashed)
    (bytes : GoString) :
    Update.Safe E r sha256 currentVersion original
      ⟨s.files.write i hashed.length bytes, .copy m k i (hashed ++ bytes)⟩ := by
  simp only [Update.Safe, hphase] at hs
  obtain ⟨hagent, hm, hentry, hdata⟩ := hs
  refine ⟨(lookup_agent_modify hentry _).trans hagent, hm, hentry, ?_⟩
  simp only [Files.write, Files.file_modify, Function.update_self, hdata]
  exact Files.splice_length bytes hashed

/-- The binary is not changed after the checks, only made executable. -/
theorem safe_chmod {k i : ℕ} (hs : s.Safe E r sha256 currentVersion original)
    (hphase : s.phase = .chmod k) (hentry : s.files.entries (.temp k) = some i) :
    Update.Safe E r sha256 currentVersion original
      ⟨s.files.modify i fun f => { f with mode := 0o755 }, .executable k⟩ := by
  simp only [Update.Safe, hphase] at hs
  obtain ⟨hagent, f, hf, hcomplete⟩ := hs
  have hfile : f = s.files.file i := by
    simpa [Files.lookup, hentry, eq_comm] using hf
  exact ⟨(lookup_agent_modify hentry _).trans hagent, _, Files.lookup_modify_self _ hentry, rfl,
    hfile ▸ hcomplete⟩

theorem safe_backUp {k : ℕ} {unix : Int64} {files : Files UpdateName}
    (hs : s.Safe E r sha256 currentVersion original) (hphase : s.phase = .backUp k)
    (hrename : s.files.rename .agent (.backup unix) = some files) :
    Update.Safe E r sha256 currentVersion original ⟨files, .install k unix⟩ := by
  simp only [Update.Safe, hphase] at hs
  obtain ⟨hagent, hvalid⟩ := hs
  obtain ⟨hbackup, hnone, hsame⟩ := Files.lookup_rename (by simp) hrename
  exact ⟨⟨hnone, hbackup.trans hagent⟩, hvalid.congr (hsame (.temp k) nofun nofun)⟩

theorem rename_agent_ne_none {k : ℕ} (hs : s.Safe E r sha256 currentVersion original)
    (hphase : s.phase = .backUp k) (n : UpdateName) : s.files.rename .agent n ≠ none := by
  simp only [Update.Safe, hphase] at hs
  intro hrename
  simp only [Files.rename] at hrename
  split_ifs at hrename with hnone
  simp [Files.lookup, hnone] at hs

theorem safe_install {k : ℕ} {unix : Int64} {files : Files UpdateName}
    (hs : s.Safe E r sha256 currentVersion original) (hphase : s.phase = .install k unix)
    (hrename : s.files.rename (.temp k) .agent = some files) :
    Update.Safe E r sha256 currentVersion original ⟨files, .restart k⟩ := by
  simp only [Update.Safe, hphase] at hs
  exact hs.2.congr (Files.lookup_rename (by simp) hrename).1

theorem safe_rollback {k : ℕ} {unix : Int64} {files : Files UpdateName}
    (hs : s.Safe E r sha256 currentVersion original) (hphase : s.phase = .rollback k unix)
    (hrename : s.files.rename (.backup unix) .agent = some files) :
    Update.Safe E r sha256 currentVersion original ⟨files, .cleanup k (.failed .operation)⟩ := by
  simp only [Update.Safe, hphase] at hs
  exact (Files.lookup_rename (by simp) hrename).1.trans hs.2

theorem safe_fails (hs : s.Safe E r sha256 currentVersion original)
    (h : s.step E r sha256 currentVersion .fails = some t) :
    t.Safe E r sha256 currentVersion original := by
  cases hphase : s.phase with
  | request m | createTemp m | close m k hashed | chmod k | executable k | backUp k
  | install k unix =>
    simp only [Update.step, hphase, Option.some.injEq] at h
    simp only [Update.Safe, hphase] at hs
    subst h
    exact hs.1
  | rollback k unix | restart k | cleanup k result =>
    simp only [Update.step, hphase, Option.some.injEq] at h
    simp only [Update.Safe, hphase] at hs
    subst h
    exact hs
  | fetchManifest | fetchSignature manifestBytes | copy m k i hashed | returned result =>
    simp only [Update.step, hphase, reduceCtorEq] at h

theorem safe_done (hs : s.Safe E r sha256 currentVersion original)
    (h : s.step E r sha256 currentVersion .done = some t) :
    t.Safe E r sha256 currentVersion original := by
  cases hphase : s.phase with
  | copy m k i hashed =>
    simp only [Update.step, hphase, Option.some.injEq] at h
    simp only [Update.Safe, hphase] at hs
    subst h
    obtain ⟨hagent, hm, hentry, hdata⟩ := hs
    exact ⟨hagent, hm, s.files.file i, by simp [Files.lookup, hentry], hdata⟩
  | close m k hashed =>
    simp only [Update.step, hphase] at h
    simp only [Update.Safe, hphase] at hs
    obtain ⟨hagent, hm, f, hf, rfl⟩ := hs
    split at h
    · cases h
      exact hagent
    · rename_i hcheck
      cases h
      exact ⟨hagent, f, hf, completeBinary_of_check hm hcheck⟩
  | chmod k =>
    simp only [Update.step, hphase] at h
    obtain ⟨i, hentry, rfl⟩ := Option.map_eq_some_iff.mp h
    exact safe_chmod hs hphase hentry
  | install k unix =>
    simp only [Update.step, hphase] at h
    obtain ⟨files, hrename, rfl⟩ := Option.map_eq_some_iff.mp h
    exact safe_install hs hphase hrename
  | rollback k unix =>
    simp only [Update.step, hphase] at h
    obtain ⟨files, hrename, rfl⟩ := Option.map_eq_some_iff.mp h
    exact safe_rollback hs hphase hrename
  | executable k | restart k =>
    simp only [Update.step, hphase, Option.some.injEq] at h
    simp only [Update.Safe, hphase] at hs
    subst h
    exact hs
  | cleanup k result =>
    simp only [Update.step, hphase, Option.some.injEq] at h
    simp only [Update.Safe, hphase] at hs
    subst h
    exact safe_remove hs
  | fetchManifest | fetchSignature manifestBytes | request m | createTemp m | backUp k
  | returned result =>
    simp only [Update.step, hphase, reduceCtorEq] at h

theorem safe_responds {resp : Option Response} (hs : s.Safe E r sha256 currentVersion original)
    (h : s.step E r sha256 currentVersion (.responds resp) = some t) :
    t.Safe E r sha256 currentVersion original := by
  cases hphase : s.phase with
  | fetchManifest =>
    simp only [Update.step, hphase] at h
    simp only [Update.Safe, hphase] at hs
    split at h <;> cases h <;> exact hs
  | fetchSignature manifestBytes =>
    simp only [Update.step, hphase] at h
    simp only [Update.Safe, hphase] at hs
    split at h
    · cases h
      exact hs
    · rename_i sigBytes _
      split at h
      · cases h
        exact hs
      · rename_i hm
        cases h
        exact ⟨hs, manifestBytes, sigBytes, hm⟩
  | _ => simp only [Update.step, hphase, reduceCtorEq] at h

theorem update_step (hs : s.Safe E r sha256 currentVersion original)
    (h : s.step E r sha256 currentVersion a = some t) :
    t.Safe E r sha256 currentVersion original := by
  cases a with
  | responds resp => exact safe_responds hs h
  | fails => exact safe_fails hs h
  | done => exact safe_done hs h
  | downloads statusCode =>
    cases hphase : s.phase <;> simp only [Update.step, hphase, reduceCtorEq] at h
    simp only [Update.Safe, hphase] at hs
    split_ifs at h <;> cases h
    · exact hs.1
    · exact hs
  | creates k mode =>
    cases hphase : s.phase <;> simp only [Update.step, hphase, reduceCtorEq] at h
    simp only [Update.Safe, hphase] at hs
    split_ifs at h
    cases h
    obtain ⟨hagent, hm⟩ := hs
    exact ⟨(Files.lookup_create_of_ne mode (by simp)).trans hagent, hm, by simp, by simp⟩
  | copies bytes =>
    cases hphase : s.phase <;> simp only [Update.step, hphase, reduceCtorEq] at h
    split_ifs at h
    cases h
    exact safe_copies hs hphase bytes
  | copyFails written =>
    cases hphase : s.phase <;> simp only [Update.step, hphase, reduceCtorEq] at h
    simp only [Update.Safe, hphase] at hs
    cases h
    obtain ⟨hagent, -, hentry, -⟩ := hs
    exact (lookup_agent_modify hentry _).trans hagent
  | renames unix =>
    cases hphase : s.phase <;> simp only [Update.step, hphase, reduceCtorEq] at h
    split at h
    · rename_i files hrename
      cases h
      exact safe_backUp hs hphase hrename
    · rename_i hrename
      exact absurd hrename (rename_agent_ne_none hs hphase _)

/-- At every instant there is a valid agent, if only under the name of the backup. -/
theorem update_keeps_agent {files : Files UpdateName} {as : List UpdateAct}
    (hagent : files.lookup .agent = some original)
    (hrun : Machine.run (Update.step E r sha256 currentVersion) (.init files) as = some s) :
    (s.phase.backup = none → s.files.lookup .agent = some original ∨
      ValidAgent E r sha256 currentVersion s.files .agent) ∧
    (∀ unix, s.phase.backup = some unix → BackedUp original s.files unix) ∧
    ∀ err, s.phase = .returned (.failed err) → s.files.lookup .agent = some original := by
  have hs : s.Safe E r sha256 currentVersion original :=
    Machine.run_invariant (Update.step E r sha256 currentVersion)
      (fun _ _ _ hs h => update_step hs h)
      (show Update.Safe _ _ _ _ _ (.init files) from hagent) hrun
  unfold Update.Safe at hs
  refine ⟨fun hnone => ?_, fun unix hsome => ?_, fun err hphase => ?_⟩
  · cases hphase : s.phase with
    | fetchManifest | fetchSignature manifestBytes =>
      rw [hphase] at hs
      exact Or.inl hs
    | request | createTemp | copy | close | chmod | executable | backUp =>
      rw [hphase] at hs
      exact Or.inl hs.1
    | install | rollback =>
      rw [hphase] at hnone
      cases hnone
    | restart k =>
      rw [hphase] at hs
      exact Or.inr hs
    | cleanup k result =>
      rw [hphase] at hs hnone
      cases result with
      | failed err => exact Or.inl hs
      | rollbackFailed unix => cases hnone
      | restarted ok => exact Or.inr hs
    | returned result =>
      rw [hphase] at hs hnone
      cases result with
      | failed err => exact Or.inl hs
      | rollbackFailed unix => cases hnone
      | restarted ok => exact Or.inr hs
  · unfold UpdatePhase.backup at hsome
    split at hsome
    · rename_i hphase
      cases hsome
      rw [hphase] at hs
      exact hs.1
    · rename_i hphase
      cases hsome
      rw [hphase] at hs
      exact hs
    · rename_i hphase
      cases hsome
      rw [hphase] at hs
      exact hs
    · rename_i hphase
      cases hsome
      rw [hphase] at hs
      exact hs
    · cases hsome
  · rw [hphase] at hs
    exact hs

/-- A release of six bytes, and its digest. -/
private def agent2 : GoString := ascii "agent2"

private def digest2 : GoString :=
  [0x27, 0xD0, 0xD0, 0x23, 0x78, 0xCC, 0x27, 0xE8, 0x8D, 0xFE, 0x61, 0xC6, 0xF8, 0x4D,
    0xAB, 0x41, 0xAB, 0x04, 0x48, 0x74, 0xFF, 0x56, 0xF3, 0x3C, 0x79, 0x86, 0xED, 0x2A,
    0x4D, 0xE9, 0x8D, 0x26]

private def digests (data : GoString) : GoString := if data = agent2 then digest2 else []

private def manifest2 : GoString := Json.render (.object [
  (ascii "version", .string (ascii "2.0")), (ascii "os", .string (ascii "linux")),
  (ascii "arch", .string (ascii "amd64")), (ascii "sha256", .string digest2.hexEncode),
  (ascii "size", .number (ascii "6"))])

private def oldAgent : Files UpdateName :=
  (Files.empty.create .agent 0o755).write 0 0 (ascii "agent1")

/-- An update up to the first rename. -/
private def backsUp : List UpdateAct :=
  [.responds (some ⟨200, manifest2⟩),
    .responds (some ⟨200, Base64.encode (summingEd25519.sign [] manifest2)⟩), .downloads 200,
    .creates 7 0o600, .copies (agent2.take 4), .copies (agent2.drop 4), .done, .done, .done, .done,
    .renames 1700000000]

theorem update_keeps_agent_rollback :
    ∃ s, Machine.run (Update.step summingEd25519 linuxRelease digests (ascii "1.0"))
        (.init oldAgent) (backsUp ++ [.fails, .done, .done]) = some s ∧
      s.phase = .returned (.failed .operation) ∧
      s.files.lookup .agent = some ⟨ascii "agent1", 0o755⟩ := by
  have hagent : oldAgent.lookup .agent = some ⟨ascii "agent1", 0o755⟩ := by
    decide
  have heval : (Machine.run (Update.step summingEd25519 linuxRelease digests (ascii "1.0"))
      (.init oldAgent) (backsUp ++ [.fails, .done, .done])).any
        (fun s => s.phase = .returned (.failed .operation)) = true := by
    decide +kernel
  simp only [Option.any_eq_true, decide_eq_true_eq] at heval
  obtain ⟨s, hrun, hphase⟩ := heval
  exact ⟨s, hrun, hphase, (update_keeps_agent hagent hrun).2.2 _ hphase⟩

/-- Between the two renames there is no agent under its own name. -/
theorem no_agent_between_renames :
    ¬ ∀ (E : Ed25519) (r : Release) (sha256 : GoString → GoString) (currentVersion : GoString)
        (files : Files UpdateName) (original : File) (as : List UpdateAct) (s : Update),
      files.lookup .agent = some original →
      Machine.run (Update.step E r sha256 currentVersion) (.init files) as = some s →
      s.files.lookup .agent = some original ∨
        ValidAgent E r sha256 currentVersion s.files .agent := by
  intro h
  have hagent : oldAgent.lookup .agent = some ⟨ascii "agent1", 0o755⟩ := by
    decide
  have heval : (Machine.run (Update.step summingEd25519 linuxRelease digests (ascii "1.0"))
      (.init oldAgent) backsUp).any (fun s => s.files.lookup .agent = none) = true := by
    decide +kernel
  simp only [Option.any_eq_true, decide_eq_true_eq] at heval
  obtain ⟨s, hrun, hnone⟩ := heval
  rcases h _ _ _ _ _ _ _ s hagent hrun with hsame | ⟨f, hf, -⟩
  · rw [hnone] at hsame
    cases hsame
  · rw [hnone] at hf
    cases hf

end Patchli.Agent
