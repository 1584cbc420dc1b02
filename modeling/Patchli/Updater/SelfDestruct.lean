import Patchli.Setup.PosixScripts
import Patchli.Updater.Host

/-!
# Uninstalling the agent

`SelfDestruct` of `updater.go`. The last step starts a shell that removes the executable
after the agent has ended.
-/

namespace Patchli.Updater

open GoString Shell Transducer

/-- What the function variables answer. -/
structure Installation (ε : Type*) where
  /-- `goosFunc() == "windows"` -/
  windows : Bool
  euid : ℤ
  /-- The error of `Run`. -/
  run : Cmd → Option ε
  /-- The error of `Start`. -/
  start : Cmd → Option ε
  stat : GoString → Stat
  remove : GoString → Option ε
  /-- No error if there is nothing to remove. -/
  removeAll : GoString → Option ε
  programData : GoString
  executable : Except ε GoString

inductive Action
  | run (c : Cmd)
  | start (c : Cmd)
  | remove (name : GoString)
  | removeAll (path : GoString)
  deriving DecidableEq

inductive DestructError (ε : Type*)
  /-- `self destruct requires root/administrator privileges` -/
  | privileges
  /-- `failed to get executable path: %v` -/
  | executable (e : ε)
  /-- `self destruct completed with errors: %v` -/
  | completed (errs : List ε)

variable {ε : Type*}

def netSession : Cmd := Cmd.plain "net" ["session"]

def isAdmin (h : Installation ε) : Bool :=
  if h.windows then (h.run netSession).isNone else h.euid = 0

def serviceFile : GoString := ascii "/etc/systemd/system/patchli-agent.service"

/-- Service, configuration and state are removed: what is done, and the errors. -/
def uninstall (h : Installation ε) : List Action × List ε :=
  if h.windows then
    let pd := if h.programData = [] then ascii "C:\\ProgramData" else h.programData
    let path := pd ++ ascii "\\Patchli"
    ([.run (Cmd.plain "sc.exe" ["stop", "patchli-agent"]),
      .run (Cmd.plain "sc.exe" ["delete", "patchli-agent"]), .removeAll path],
      (h.removeAll path).toList)
  else
    let service : List Action × List ε :=
      if h.stat serviceFile = .found then
        ([.run (Cmd.plain "systemctl" ["stop", "patchli-agent"]),
          .run (Cmd.plain "systemctl" ["disable", "patchli-agent"]), .remove serviceFile,
          .run (Cmd.plain "systemctl" ["daemon-reload"])], (h.remove serviceFile).toList)
      else ([], [])
    (service.1 ++ [.removeAll (ascii "/etc/patchli"), .removeAll (ascii "/var/lib/patchli")],
      service.2 ++ (h.removeAll (ascii "/etc/patchli")).toList ++
        (h.removeAll (ascii "/var/lib/patchli")).toList)

/-- The command that removes the executable after a delay. -/
def removal (windows : Bool) (exePath : GoString) : Cmd :=
  if windows then
    let script := ascii "ping 127.0.0.1 -n 3 > nul & del /F /Q \"" ++ exePath ++ ascii "\""
    ⟨ascii "cmd.exe", [ascii "/C", script], []⟩
  else
    let escapedPath := ascii "'" ++ replaceByte 0x27 (ascii "'\\''") exePath ++ ascii "'"
    let script := ascii "sleep 2; rm -f " ++ escapedPath
    ⟨ascii "sh", [ascii "-c", script], []⟩

/-- What `SelfDestruct` does, and its error. -/
def selfDestruct (h : Installation ε) : List Action × Option (DestructError ε) :=
  let session := if h.windows then [Action.run netSession] else []
  if !isAdmin h then (session, some .privileges)
  else
    let (actions, errs) := uninstall h
    match h.executable with
    | .error e => (session ++ actions, some (.executable e))
    | .ok exePath =>
      let cmd := removal h.windows exePath
      let errs := errs ++ (h.start cmd).toList
      (session ++ actions ++ [.start cmd], if errs = [] then none else some (.completed errs))

/-! ### The shell -/

theorem start_not_mem_uninstall (h : Installation ε) (c : Cmd) :
    Action.start c ∉ (uninstall h).1 := by
  unfold uninstall
  dsimp only
  split_ifs <;> simp

/-- An administrator's last step starts the removal; without the privileges nothing is done. -/
theorem selfDestruct_actions {h : Installation ε} {exePath : GoString} (hunix : h.windows = false)
    (hexe : h.executable = .ok exePath) : (selfDestruct h).1 =
      if h.euid = 0 then (uninstall h).1 ++ [.start (removal false exePath)] else [] := by
  unfold selfDestruct isAdmin
  simp only [hunix, hexe]
  split_ifs <;> simp_all

/-- In front of the path. -/
def beforePath : State :=
  ⟨.space, .argument, none, ⟨[plain (ascii "rm"), plain (ascii "-f")], none, none⟩⟩

theorem feed_beforePath : feed step start (ascii "sleep 2; rm -f ") =
    some (beforePath, [⟨[plain (ascii "sleep"), plain (ascii "2")], none, none⟩]) := by
  decide +kernel

theorem read_removal {exePath : GoString} (hpath : 0 ∉ exePath) :
    read (ascii "sleep 2; rm -f " ++ quote exePath) =
      some [⟨[plain (ascii "sleep"), plain (ascii "2")], none, none⟩,
        ⟨[plain (ascii "rm"), plain (ascii "-f"), quoted exePath], none, none⟩] := by
  have hend : feed step { beforePath with mode := .word (quoted exePath) } [0x0A] =
      some (start, [⟨[plain (ascii "rm"), plain (ascii "-f"), quoted exePath], none, none⟩]) := rfl
  have hword : beforePath.mode.word? = some [] := rfl
  have hpart := feed_quote hword hpath [0x0A]
  rw [List.nil_append, hend] at hpart
  unfold Shell.read
  rw [List.append_assoc, feed_append feed_beforePath, hpart]
  rfl

theorem run_removal {exePath : GoString} (hpath : 0 ∉ exePath) :
    run (ascii "sleep 2; rm -f " ++ quote exePath) =
      some ([], [⟨[ascii "sleep", ascii "2"], none, none⟩,
        ⟨[ascii "rm", ascii "-f", exePath], none, none⟩]) := by
  rw [run, read_removal hpath, Option.bind_some, execAll_programs]
  · simp [Command.invocation, value_plain, value_quoted]
  · simp only [List.forall_mem_cons]
    exact ⟨rfl, rfl, List.forall_mem_nil _⟩

/-! ### Quoting is exact -/

open Setup in
/-- A quoted text is one word with that value. The setup scripts assign the five values and
start the programs of their templates, and an agent that an administrator uninstalls removes
its executable. -/
theorem shell_quoting_exact :
    (∀ s : GoString, 0 ∉ s →
      (∀ (st : State) (w : Word), st.mode.word? = some w → ∀ rest : GoString,
        feed step st (ascii "'" ++ escapeBash s ++ ascii "'" ++ rest) =
          feed step { st with mode := .word (w ++ quoted s) } rest) ∧
      read (ascii "'" ++ escapeBash s ++ ascii "'") = some [⟨[quoted s], none, none⟩] ∧
      ∀ env : Env, Word.value env (quoted s) = s) ∧
    (∀ group ts nonce sig url : GoString, (∀ v ∈ [group, ts, nonce, sig, url], 0 ∉ v) →
      run (generateLinuxScript group ts nonce sig url) =
        some (assigned group ts nonce sig url, linuxInvocations group url) ∧
      run (generateAlpineScript group ts nonce sig url) =
        some (assigned group ts nonce sig url, alpineInvocations group url)) ∧
    ∀ (h : Installation ε) (exePath : GoString), h.windows = false →
      h.executable = .ok exePath → 0 ∉ exePath →
      ∃ script, (selfDestruct h).1 =
          (if h.euid = 0 then
            (uninstall h).1 ++ [.start ⟨ascii "sh", [ascii "-c", script], []⟩]
          else []) ∧
        (∀ c, Action.start c ∉ (uninstall h).1) ∧
        run script = some ([], [⟨[ascii "sleep", ascii "2"], none, none⟩,
          ⟨[ascii "rm", ascii "-f", exePath], none, none⟩]) := by
  refine ⟨?_, ?_, ?_⟩
  · intro s hs
    refine ⟨?_, read_quote hs, fun env => value_quoted env s⟩
    intro st w hmode rest
    exact feed_quote hmode hs rest
  · intro group ts nonce sig url hvalues
    exact ⟨run_linux hvalues, run_alpine hvalues⟩
  · intro h exePath hunix hexe hpath
    exact ⟨_, selfDestruct_actions hunix hexe, start_not_mem_uninstall h, run_removal hpath⟩

/-- An installation of root, whose path has an apostrophe. -/
private def installed : Installation Unit where
  windows := false
  euid := 0
  run _ := none
  start _ := none
  stat _ := .found
  remove _ := none
  removeAll _ := none
  programData := []
  executable := .ok (ascii "/opt/it's/agent")

/-- Quotes between letters: in a word, in the values of a script and in a path. -/
theorem shell_quoting_exact_apostrophe :
    read (ascii "'" ++ Setup.escapeBash (ascii "it's") ++ ascii "'") =
        some [⟨[quoted (ascii "it's")], none, none⟩] ∧
      (run (Setup.generateLinuxScript (ascii "a'b") (ascii "1") (ascii "n") (ascii "s'")
          (ascii "'http://h'"))).map Prod.fst =
        some [(ascii "GROUP", ascii "a'b"), (ascii "TIMESTAMP", ascii "1"),
          (ascii "NONCE", ascii "n"), (ascii "SIGNATURE", ascii "s'"),
          (ascii "SERVER_URL", ascii "'http://h'")] ∧
      ∃ script, Action.start ⟨ascii "sh", [ascii "-c", script], []⟩ ∈ (selfDestruct installed).1 ∧
        run script = some ([], [⟨[ascii "sleep", ascii "2"], none, none⟩,
          ⟨[ascii "rm", ascii "-f", ascii "/opt/it's/agent"], none, none⟩]) := by
  obtain ⟨hwords, hscripts, hdestruct⟩ := shell_quoting_exact (ε := Unit)
  refine ⟨(hwords (ascii "it's") (by decide)).2.1, ?_, ?_⟩
  · rw [(hscripts _ _ _ _ _ (by decide)).1]
    rfl
  · obtain ⟨script, hactions, -, hrun⟩ :=
      hdestruct installed (ascii "/opt/it's/agent") rfl rfl (by decide)
    refine ⟨script, ?_, hrun⟩
    rw [hactions, if_pos (show installed.euid = 0 from rfl)]
    exact List.mem_append_right _ (List.mem_singleton.mpr rfl)

end Patchli.Updater
