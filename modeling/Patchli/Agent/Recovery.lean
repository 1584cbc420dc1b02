import Patchli.Agent.PatchJobs
import Patchli.Foundation.Torn

/-!
# What a restart makes of the state file

`RunAgent` looks for an interrupted job when it starts. What it finds is decided by the job
that owns the file: a state that was not written to its end is no state, and a job that has
not saved its state, or has cleared it, is never reported.
-/

namespace Patchli.Agent

open Json

variable {files : Files GoString} {s t : PatchJobs} {j j' : PatchJob} {x : JobAct}

/-! ### Torn states -/

end Patchli.Agent
