import Patchli.Updater.Apt

/-!
# The package managers

`apk.go`, `apt.go`, `dnf.go`, `pacman.go`, `yum.go` and `zypper.go`. The six managers have the
same methods up to their commands, paths and texts: a `Manager` lists these, and each method
is written once.
-/

namespace Patchli.Updater

/-- How a manager looks for updates. -/
inductive Check
  /-- The first command brings the lists up to date and the second reads them. -/
  | refresh (update list : Cmd)
  /-- One command, which exits with 100 if there are updates. -/
  | checkUpdate (cmd : Cmd)

/-- How a manager is found to be busy. -/
inductive Lock
  /-- The file is there. -/
  | file (path : GoString)
  /-- The file is there, or else the process. -/
  | fileOrProcess (path process : GoString)
  /-- The file is there and one of the processes. -/
  | processes (path : GoString) (names : List GoString)

inductive CleanupCmd
  | cmd (cmd : Cmd)
  /-- The first command if the probe succeeds, or else the second. -/
  | either (probe yes no : Cmd)

/-- What makes the difference between two managers. -/
structure Manager where
  check : Check
  /-- The command of `ApplyUpdates`. -/
  update : List GoString → Cmd
  minBytes : UInt64
  lock : Lock
  /-- The text of the error if the manager is busy. -/
  busy : GoString
  cleanup : CleanupCmd

variable {ε : Type}

def commandResult (answer : GoString × Option (Failure ε)) : UpdateResult ε × Option ε :=
  let err := answer.2.map Failure.error
  (⟨err.isNone, answer.1, err⟩, err)

def pgrep (process : GoString) : Cmd := ⟨ascii "pgrep", [ascii "-x", process], []⟩

def anyRunning : List GoString → Proc (System ε) Bool
  | [] => pure false
  | process :: names => do
    let (_, err) ← runCmd (pgrep process)
    if err.isNone then pure true else anyRunning names

def Lock.held : Lock → Proc (System ε) Bool
  | .file path => do
    let answer ← statFile path
    pure (decide (answer = .found))
  | .fileOrProcess path process => do
    let answer ← statFile path
    if answer = .found then pure true else anyRunning [process]
  | .processes path names => do
    let answer ← statFile path
    if answer = .found then anyRunning names else pure false

namespace Manager

variable (m : Manager)

def checkUpdates : Proc (System ε) (UpdateResult ε × Option ε) :=
  match m.check with
  | .refresh update list => do
    let answer ← runCmd update
    if answer.2.isSome then pure (commandResult answer)
    else
      let answer ← runCmd list
      pure (commandResult answer)
  | .checkUpdate cmd => do
    let answer ← runCmd cmd
    match answer.2 with
    | some failure =>
      if failure.exitCode ≠ 100 then pure (commandResult answer)
      else pure (⟨true, answer.1, none⟩, none)
    | none => pure (⟨true, answer.1, none⟩, none)

def applyUpdates (packages : List GoString) : Proc (System ε) (UpdateResult ε × Option ε) := do
  let answer ← runCmd (m.update packages)
  pure (commandResult answer)

def runCleanup : Proc (System ε) (Option ε) :=
  match m.cleanup with
  | .cmd cmd => do
    let answer ← runCmd cmd
    pure (answer.2.map Failure.error)
  | .either probe yes no => do
    let answer ← runCmd probe
    let answer ← runCmd (if answer.2.isNone then yes else no)
    pure (answer.2.map Failure.error)

end Manager

/-- `args` and the packages, or other arguments if none are given. -/
def packageCmd (name : String) (args : List String) (all : List String)
    (packages : List GoString) : Cmd :=
  if packages.length > 0 then ⟨ascii name, args.map ascii ++ packages, []⟩ else Cmd.plain name all

def gibibyte : UInt64 := 1024 * 1024 * 1024

def apkManager : Manager where
  check := .refresh (Cmd.plain "apk" ["update"]) (Cmd.plain "apk" ["version", "-l", "<"])
  update := packageCmd "apk" ["add"] ["upgrade"]
  minBytes := 500 * 1024 * 1024
  lock := .file (ascii "/var/run/apk.lock")
  busy := ascii "package manager is currently locked"
  cleanup := .cmd (Cmd.plain "apk" ["cache", "clean"])

def dnfManager : Manager where
  check := .checkUpdate (Cmd.plain "dnf" ["check-update"])
  update := packageCmd "dnf" ["install", "-y"] ["upgrade", "-y"]
  minBytes := gibibyte
  lock := .fileOrProcess (ascii "/var/run/dnf.pid") (ascii "dnf")
  busy := ascii "dnf is currently locked or in use"
  cleanup := .cmd (Cmd.plain "dnf" ["autoremove", "-y"])

def pacmanManager : Manager where
  check := .refresh (Cmd.plain "pacman" ["-Sy"]) (Cmd.plain "pacman" ["-Qu"])
  update := packageCmd "pacman" ["-S", "--noconfirm"] ["-Su", "--noconfirm"]
  minBytes := gibibyte
  lock := .file (ascii "/var/lib/pacman/db.lck")
  busy := ascii "pacman is currently locked"
  cleanup := .cmd (Cmd.plain "pacman" ["-Sc", "--noconfirm"])

def yumManager : Manager where
  check := .checkUpdate (Cmd.plain "yum" ["check-update", "-y"])
  update := packageCmd "yum" ["update", "-y"] ["update", "-y"]
  minBytes := gibibyte
  lock := .fileOrProcess (ascii "/var/run/yum.pid") (ascii "yum")
  busy := ascii "yum is currently locked or in use"
  cleanup := .either (Cmd.plain "sh" ["-c", "yum help | grep -q autoremove"])
    (Cmd.plain "yum" ["autoremove", "-y"]) (Cmd.plain "yum" ["clean", "all"])

def zypperManager : Manager where
  check := .refresh (Cmd.plain "zypper" ["--non-interactive", "refresh"])
    (Cmd.plain "zypper" ["--non-interactive", "list-updates"])
  update := packageCmd "zypper" ["--non-interactive", "install"] ["--non-interactive", "update"]
  minBytes := gibibyte
  lock := .file (ascii "/var/run/zypp.pid")
  busy := ascii "zypper is currently locked"
  cleanup := .cmd (Cmd.plain "zypper" ["clean", "-a"])

/-! ### What the checks ask -/

def answered (q : SystemRequest) (r : (System ε).Answer q) : (System ε).Event := ⟨q, r⟩

/-- The events show that the file is not there. -/
def NotFound (es : List (System ε).Event) (path : GoString) : Prop :=
  ∃ r : Stat, r ≠ .found ∧ answered (.stat path) r ∈ es

def NotRunning (es : List (System ε).Event) (process : GoString) : Prop :=
  ∃ (out : GoString) (failure : Failure ε), answered (.run (pgrep process)) (out, some failure) ∈ es

/-- The events show that no one holds the lock. -/
def Lock.Free (es : List (System ε).Event) : Lock → Prop
  | .file path => NotFound es path
  | .fileOrProcess path process => NotFound es path ∧ NotRunning es process
  | .processes path names => NotFound es path ∨ ∀ process ∈ names, NotRunning es process

theorem Lock.Free.cons {l : Lock} {es : List (System ε).Event} (h : l.Free es)
    (e : (System ε).Event) : l.Free (e :: es) := by
  cases l with
  | file path =>
    obtain ⟨r, hr, hmem⟩ := h
    exact ⟨r, hr, List.mem_cons_of_mem _ hmem⟩
  | fileOrProcess path process =>
    obtain ⟨⟨r, hr, hmem⟩, out, failure, hout⟩ := h
    exact ⟨⟨r, hr, List.mem_cons_of_mem _ hmem⟩, out, failure, List.mem_cons_of_mem _ hout⟩
  | processes path names =>
    rcases h with ⟨r, hr, hmem⟩ | h
    · exact Or.inl ⟨r, hr, List.mem_cons_of_mem _ hmem⟩
    · refine Or.inr fun process hp => ?_
      obtain ⟨out, failure, hout⟩ := h process hp
      exact ⟨out, failure, List.mem_cons_of_mem _ hout⟩

end Patchli.Updater
