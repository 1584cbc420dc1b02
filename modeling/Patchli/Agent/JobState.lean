import Patchli.Command.Wire
import Patchli.Foundation.Files

/-!
# The state of a patch job

`internal/state`: what `SaveState` writes and what `LoadState` makes of the file.
-/

namespace Patchli.Agent

open Json Wire Decimal

def stateFile : GoString := ascii "/var/lib/patchli/state.json"

/-- The persistent state of a patch job. -/
structure JobState where
  jobID : GoString
  action : GoString
  packages : Option (List GoString)
  status : GoString
  startTime : Int64
  deriving DecidableEq

/-- A nil slice is null. -/
def packagesValue (packages : Option (List GoString)) : Value :=
  match packages with
  | none => .null
  | some ps => .array (ps.map .string)

/-- `json.Marshal`. -/
def JobState.marshal (s : JobState) : GoString := render (.object [
  (ascii "job_id", .string s.jobID),
  (ascii "action", .string s.action),
  (ascii "packages", packagesValue s.packages),
  (ascii "status", .string s.status),
  (ascii "start_time", .number (formatInt s.startTime.toInt))])

/-- A state and the array behind its packages. -/
structure JobStateDecoding where
  state : JobState
  backing : List GoString

def setStatePackages (d : JobStateDecoding) : Value → Option JobStateDecoding
  | .array [] => some ⟨{ d.state with packages := some [] }, []⟩
  | .array vs => (decodeStrings d.backing vs).map fun ss =>
      ⟨{ d.state with packages := some ss }, ss ++ d.backing.drop ss.length⟩
  | .null => some ⟨{ d.state with packages := none }, []⟩
  | _ => none

def setState (d : JobStateDecoding) (key : GoString) (v : Value) : Option JobStateDecoding :=
  if key.equalFold (ascii "job_id") then
    (decodeString d.state.jobID v).map fun s => { d with state := { d.state with jobID := s } }
  else if key.equalFold (ascii "action") then
    (decodeString d.state.action v).map fun s => { d with state := { d.state with action := s } }
  else if key.equalFold (ascii "packages") then setStatePackages d v
  else if key.equalFold (ascii "status") then
    (decodeString d.state.status v).map fun s => { d with state := { d.state with status := s } }
  else if key.equalFold (ascii "start_time") then
    (decodeInt64 d.state.startTime v).map fun n =>
      { d with state := { d.state with startTime := n } }
  else some d

/-- `json.Unmarshal` into a new `State`. -/
def unmarshalState (text : GoString) : Option JobState :=
  ((parse text).bind (decodeStruct setState ⟨⟨[], [], none, [], 0⟩, []⟩)).map (·.state)

/-- Without a file there is no state and no error. -/
def loadState (files : Files GoString) : Except Unit (Option JobState) :=
  match files.lookup stateFile with
  | none => .ok none
  | some f =>
    match unmarshalState f.data with
    | none => .error ()
    | some s => .ok (some s)

structure JobState.WellEncoded (s : JobState) : Prop where
  jobID : Utf8.Valid s.jobID
  action : Utf8.Valid s.action
  packages : ∀ p ∈ s.packages.getD [], Utf8.Valid p
  status : Utf8.Valid s.status

theorem setState_job_id (d : JobStateDecoding) (s : GoString) :
    setState d (ascii "job_id") (.string s) =
      some { d with state := { d.state with jobID := s } } :=
  rfl

theorem setState_action (d : JobStateDecoding) (s : GoString) :
    setState d (ascii "action") (.string s) =
      some { d with state := { d.state with action := s } } :=
  rfl

theorem setState_packages (d : JobStateDecoding) (v : Value) :
    setState d (ascii "packages") v = setStatePackages d v :=
  rfl

theorem setState_status (d : JobStateDecoding) (s : GoString) :
    setState d (ascii "status") (.string s) =
      some { d with state := { d.state with status := s } } :=
  rfl

theorem setState_start_time (d : JobStateDecoding) (n : Int64) :
    setState d (ascii "start_time") (.number (formatInt n.toInt)) =
      some { d with state := { d.state with startTime := n } } := by
  change (decodeInt64 d.state.startTime (.number (formatInt n.toInt))).map _ = _
  simp [decodeInt64, parseInt64_formatInt]

theorem setStatePackages_value {packages : Option (List GoString)} (state : JobState)
    (hpackages : ∀ p ∈ packages.getD [], Utf8.Valid p) :
    ∃ backing, setStatePackages ⟨state, []⟩ (decoded (packagesValue packages)) =
      some ⟨{ state with packages := packages }, backing⟩ := by
  cases packages with
  | none => exact ⟨[], rfl⟩
  | some ps =>
    have hvalid : ps.map Utf8.toValid = ps :=
      (List.map_congr_left fun p hp => Utf8.toValid_of_valid (hpackages p hp)).trans
        (List.map_id ps)
    rw [packagesValue, decoded, decodedElements_strings, hvalid]
    cases ps with
    | nil => exact ⟨[], rfl⟩
    | cons p ps =>
      have hdecode := decodeStrings_strings [] (p :: ps)
      exact ⟨p :: ps, by simp_all [setStatePackages]⟩

theorem integral_packagesValue (packages : Option (List GoString)) :
    Integral (packagesValue packages) := by
  cases packages with
  | none => trivial
  | some ps => exact integral_strings ps

theorem unmarshal_marshal {s : JobState} (hs : s.WellEncoded) :
    unmarshalState s.marshal = some s := by
  have hnames : ∀ name ∈ [ascii "job_id", ascii "action", ascii "packages", ascii "status",
      ascii "start_time"], Utf8.toValid name = name := by
    decide
  simp only [List.forall_mem_cons] at hnames
  obtain ⟨backing, hpackages⟩ := setStatePackages_value
    ⟨s.jobID, s.action, none, [], 0⟩ hs.packages
  rw [unmarshalState, JobState.marshal, parse_render]
  · simp only [decoded, decodedMembers, hnames, Utf8.toValid_of_valid hs.jobID,
      Utf8.toValid_of_valid hs.action, Utf8.toValid_of_valid hs.status, Option.bind_some,
      decodeStruct, List.foldlM_cons, List.foldlM_nil, setState_job_id, Option.bind_eq_bind,
      setState_action, setState_packages, hpackages, setState_status, setState_start_time]
    rfl
  · exact ⟨trivial, trivial, integral_packagesValue s.packages, trivial, ⟨_, rfl⟩, trivial⟩

theorem loadState_marshal {files : Files GoString} {i : ℕ} {s : JobState}
    (hentry : files.entries stateFile = some i) (hdata : (files.file i).data = s.marshal)
    (hs : s.WellEncoded) : loadState files = .ok (some s) := by
  simp [loadState, Files.lookup, hentry, hdata, unmarshal_marshal hs]

theorem loadState_none {files : Files GoString} (hentry : files.entries stateFile = none) :
    loadState files = .ok none := by
  simp [loadState, Files.lookup, hentry]

theorem loadState_empty {files : Files GoString} {i : ℕ} (hentry : files.entries stateFile = some i)
    (hdata : (files.file i).data = []) : loadState files = .error () := by
  have hnone : unmarshalState [] = none := rfl
  simp [loadState, Files.lookup, hentry, hdata, hnone]

end Patchli.Agent
