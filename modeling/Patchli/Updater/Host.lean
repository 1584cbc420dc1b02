import Patchli.Foundation.GoString
import Patchli.Foundation.Requests

/-!
# The host of an agent

What `updater.go` reaches through its function variables: commands of `os/exec` and the
status of files. A `Host` answers one call of a method by functions of what is asked; no
such method asks the same twice. A `System` is asked one request after the other. The check
of its disk space is that of `disk_unix.go`.
-/

namespace Patchli.Updater

/-- A command; `env` is what it gets besides the agent's own environment. -/
structure Cmd where
  name : GoString
  args : List GoString
  env : List GoString
  deriving DecidableEq

/-- A command without arguments that are not ASCII, in the agent's environment. -/
def Cmd.plain (name : String) (args : List String) : Cmd := ⟨ascii name, args.map ascii, []⟩

/-- The outcome of `os.Stat`. -/
inductive Stat
  | found
  | notExist
  | failed
  deriving DecidableEq

structure Host (ε : Type*) where
  /-- `Run`: what the command writes, and its error. -/
  run : Cmd → GoString × Option ε
  /-- `Output` -/
  output : Cmd → Except ε GoString
  stat : GoString → Stat

structure UpdateResult (ε : Type*) where
  success : Bool
  output : GoString
  error : Option ε

/-- `strings.Contains` -/
def contains (s sub : GoString) : Bool := sub <:+: s

/-! ### Requests -/

/-- The error of `Run` or `Output`, and the code of `ProcessState.ExitCode`. -/
structure Failure (ε : Type) where
  error : ε
  exitCode : ℤ

/-- The two fields that are read of what `syscall.Statfs` fills in. -/
structure Statfs where
  bsize : Int64
  bavail : UInt64
  deriving DecidableEq

inductive SystemRequest
  /-- `Run`, with both outputs in one buffer. -/
  | run (cmd : Cmd)
  | stat (path : GoString)
  | statfs (path : GoString)
  deriving DecidableEq

def System (ε : Type) : Interface where
  Request := SystemRequest
  Answer
    | .run _ => GoString × Option (Failure ε)
    | .stat _ => Stat
    | .statfs _ => Except ε Statfs

variable {ε : Type}

def runCmd (cmd : Cmd) : Proc (System ε) (GoString × Option (Failure ε)) :=
  .ask (.run cmd : SystemRequest) .ret

def statFile (path : GoString) : Proc (System ε) Stat :=
  .ask (.stat path : SystemRequest) .ret

/-! ### Disk space -/

end Patchli.Updater
