import Patchli.Api.AuthHandlers
import Patchli.Foundation.Files
import Patchli.Foundation.Machine
import Patchli.Foundation.Text

/-!
# The identity of a node

`GetOrGenerate` of `identity.go`: the ID in the file, or a new one that is written there.
The calls come one after the other, and a process may be killed during each of them, with
any part of the ID written.
-/

namespace Patchli.Agent.Identity

open GoString Auth Text

/-- `uuid.Parse`: whether it returns no error. -/
structure Uuid where
  parse : GoString → Bool

/-- `String` of a UUID. -/
def uuidString (bytes : GoString) : GoString :=
  hexEncode (bytes.take 4) ++ 0x2D :: (hexEncode ((bytes.drop 4).take 2) ++
    0x2D :: (hexEncode ((bytes.drop 6).take 2) ++ 0x2D :: (hexEncode ((bytes.drop 8).take 2) ++
      0x2D :: hexEncode (bytes.drop 10))))

/-- The forms that `uuid.Parse` documents: what `String` makes of a UUID, the same in braces
or as a URN, and 32 digits. -/
structure Uuid.Documented (U : Uuid) : Prop where
  string : ∀ bytes : GoString, bytes.length = 16 → U.parse (uuidString bytes) = true
  form : ∀ s : GoString, U.parse s = true → s.length = 36 ∨ s.length = 38 ∨ s.length = 45 ∨
    s.length = 32 ∧ ∀ b ∈ s, isHexDigit b = true

/-! ### The calls -/

inductive Phase
  /-- There is no call. -/
  | idle
  /-- Nothing usable was read. -/
  | generating
  /-- In `os.WriteFile`; the handle leads to file `i`, which holds `off` bytes. -/
  | writing (id : GoString) (i off : ℕ)

/-- `returned` records the IDs that were returned without an error. -/
structure State where
  files : Files GoString
  phase : Phase
  returned : List GoString

def State.init (files : Files GoString) : State := ⟨files, .idle, []⟩

inductive Action
  /-- `os.ReadFile` -/
  | readFile
  /-- It fails although the file may be there. -/
  | readError
  | mkdirError
  /-- The random bytes of `uuid.New`; the file is opened. -/
  | openFile (bytes : GoString)
  | openError
  | write (n : ℕ)
  | writeError
  | close
  | kill

def idFile : GoString := ascii "/etc/patchli/node_id"

/-- The ID that the file holds. -/
def stored (U : Uuid) (files : Files GoString) : Option GoString :=
  match files.lookup idFile with
  | none => none
  | some f =>
    if f.data = [] then none
    else
      let parsed := trimSpace f.data
      if U.parse parsed then some parsed else none

def step (U : Uuid) (s : State) (a : Action) : Option State :=
  match s.phase, a with
  | .idle, .readFile =>
    match stored U s.files with
    | some id => some { s with returned := s.returned ++ [id] }
    | none => some { s with phase := .generating }
  | .idle, .readError => some { s with phase := .generating }
  | .generating, .mkdirError | .generating, .openError => some { s with phase := .idle }
  | .generating, .openFile bytes =>
    if bytes.length = 16 then
      let (i, files) := s.files.openTruncate idFile 0o600
      some { s with files := files, phase := .writing (uuidString bytes) i 0 }
    else none
  | .writing id i off, .write n =>
    if off + n ≤ id.length then
      some { s with
        files := s.files.write i off ((id.drop off).take n)
        phase := .writing id i (off + n) }
    else none
  | .writing _ _ _, .writeError => some { s with phase := .idle }
  | .writing id _ off, .close =>
    if off = id.length then some { s with phase := .idle, returned := s.returned ++ [id] }
    else none
  | _, .kill => some { s with phase := .idle }
  | _, _ => none

/-! ### The texts of IDs -/

theorem length_hexEncode (bytes : GoString) : bytes.hexEncode.length = 2 * bytes.length := by
  induction bytes with
  | nil => rfl
  | cons b bytes ih =>
    simp only [hexEncode, List.length_cons, ih]
    omega

theorem length_uuidString {bytes : GoString} (h : bytes.length = 16) :
    (uuidString bytes).length = 36 := by
  simp [uuidString, length_hexEncode, h]

theorem hexDigit_isHexDigit {n : ℕ} (hn : n < 16) : isHexDigit (hexDigit n) = true := by
  interval_cases n <;> rfl

theorem isHexDigit_hexEncode {bytes : GoString} : ∀ b ∈ bytes.hexEncode, isHexDigit b = true := by
  induction bytes with
  | nil => exact fun b hb => absurd hb List.not_mem_nil
  | cons c bytes ih =>
    intro b hb
    have hc := c.toNat_lt
    rcases List.mem_cons.mp hb with rfl | hb
    · exact hexDigit_isHexDigit (by omega)
    rcases List.mem_cons.mp hb with rfl | hb
    · exact hexDigit_isHexDigit (by omega)
    · exact ih b hb

theorem mem_uuidString {bytes : GoString} :
    ∀ b ∈ uuidString bytes, isHexDigit b = true ∨ b = 0x2D := by
  intro b hb
  simp only [uuidString, List.mem_append, List.mem_cons] at hb
  rcases hb with hb | rfl | hb | rfl | hb | rfl | hb | rfl | hb
  all_goals first | exact Or.inr rfl | exact Or.inl (isHexDigit_hexEncode b hb)

theorem visible_uuidString {bytes : GoString} : ∀ b ∈ uuidString bytes, Visible b := by
  intro b hb
  rcases mem_uuidString b hb with hdigit | rfl
  · simp only [isHexDigit, Bool.or_eq_true, Bool.and_eq_true, decide_eq_true_eq] at hdigit
    unfold Visible
    grind
  · decide

/-- A part that was written is read as it is. -/
theorem trimSpace_take {bytes : GoString} (n : ℕ) :
    trimSpace ((uuidString bytes).take n) = (uuidString bytes).take n := by
  have hvisible : ∀ b ∈ (uuidString bytes).take n, Visible b :=
    fun b hb => visible_uuidString b (List.mem_of_mem_take hb)
  by_cases hnil : (uuidString bytes).take n = []
  · rw [hnil]
    rfl
  · have hline := trimSpace_line (List.head?_eq_some_head hnil)
      (List.getLast?_eq_some_getLast hnil)
      ⟨hvisible _ (List.head_mem hnil), hvisible _ (List.getLast_mem hnil)⟩ 0
    rwa [List.replicate_zero, List.append_nil] at hline

theorem parse_take {U : Uuid} (hU : U.Documented) {bytes : GoString} (hbytes : bytes.length = 16)
    {n : ℕ} (h : U.parse ((uuidString bytes).take n) = true) :
    (uuidString bytes).take n = uuidString bytes := by
  have hlength := length_uuidString hbytes
  have htake : ((uuidString bytes).take n).length = min n 36 := by
    rw [List.length_take, hlength]
  rcases hU.form _ h with hform | hform | hform | ⟨hform, hdigits⟩
  · apply List.take_of_length_le
    omega
  · omega
  · omega
  · -- the first hyphen would be a digit
    have hn : n = 32 := by omega
    have hmem : 0x2D ∈ (uuidString bytes).take n := by
      have hfirst : (hexEncode (bytes.take 4)).length = 8 := by
        simp [length_hexEncode, hbytes]
      rw [hn, uuidString, List.take_append, hfirst]
      simp
    exact absurd (hdigits _ hmem) (by decide)

theorem validNodeID_uuidString {bytes : GoString} (hbytes : bytes.length = 16) :
    Api.validNodeID (uuidString bytes) = true := by
  simp only [Api.validNodeID, length_uuidString hbytes, Bool.and_eq_true, List.all_eq_true]
  refine ⟨by decide, fun b hb => ?_⟩
  rcases mem_uuidString b hb with hdigit | rfl
  · simp only [isHexDigit, Bool.or_eq_true, Bool.and_eq_true, decide_eq_true_eq] at hdigit
    grind
  · decide

/-! ### Every run -/

variable {U : Uuid} {s t : State} {a : Action}

def Generated (id : GoString) : Prop := ∃ bytes : GoString, bytes.length = 16 ∧ id = uuidString bytes

/-- A read fails only when there is nothing to be read. -/
def ReadsWhatIsThere (U : Uuid) (s : State) : Action → Prop
  | .readError => stored U s.files = none
  | _ => True

/-- What was returned is in the file, and a call that generates an ID is the first one to
return. -/
structure Settled (U : Uuid) (s : State) : Prop where
  returned : ∀ id ∈ s.returned, stored U s.files = some id
  first : s.returned ≠ [] → s.phase = .idle
  writing : ∀ id i off, s.phase = .writing id i off → Generated id ∧
    s.files.entries idFile = some i ∧ off ≤ id.length ∧ (s.files.file i).data = id.take off

theorem stored_of_data (hU : U.Documented) {files : Files GoString} {i off : ℕ} {id : GoString}
    (hid : Generated id) (hentry : files.entries idFile = some i)
    (hdata : (files.file i).data = id.take off) :
    stored U files = if off < id.length then none else some id := by
  obtain ⟨bytes, hbytes, rfl⟩ := hid
  have hlookup : files.lookup idFile = some (files.file i) := by rw [Files.lookup, hentry]; rfl
  have hlength := length_uuidString hbytes
  unfold stored
  rw [hlookup]
  simp only [hdata, trimSpace_take]
  by_cases hoff : off < (uuidString bytes).length
  · rw [if_pos hoff]
    have hparse : U.parse ((uuidString bytes).take off) ≠ true := by
      intro h
      have heq := congrArg List.length (parse_take hU hbytes h)
      rw [List.length_take] at heq
      omega
    simp [hparse]
  · rw [if_neg hoff, List.take_of_length_le (not_lt.mp hoff), hU.string bytes hbytes]
    have hne : uuidString bytes ≠ [] := by
      rintro hnil
      rw [hnil] at hlength
      cases hlength
    simp [hne]

theorem Settled.returned_eq_nil (hs : Settled U s) (hphase : s.phase ≠ .idle) : s.returned = [] := by
  by_contra hne
  exact hphase (hs.first hne)

theorem Settled.toIdle (hs : Settled U s) : Settled U { s with phase := .idle } where
  returned := hs.returned
  first _ := rfl
  writing id i off h := by cases h

theorem Settled.toGenerating (hs : Settled U s) (hnone : stored U s.files = none) :
    Settled U { s with phase := .generating } where
  returned := hs.returned
  first hne := by
    obtain ⟨id, hid⟩ := List.exists_mem_of_ne_nil _ hne
    have hstored := hs.returned id hid
    rw [hnone] at hstored
    cases hstored
  writing id i off h := by cases h

theorem settled_step (hU : U.Documented) (hs : Settled U s) (ha : ReadsWhatIsThere U s a)
    (h : step U s a = some t) : Settled U t := by
  unfold step at h
  split at h
  · rename_i hphase
    split at h
    · rename_i id hid
      cases h
      refine ⟨?_, fun _ => hphase, ?_⟩
      · intro id' hid'
        rcases List.mem_append.mp hid' with hid' | hid'
        · exact hs.returned id' hid'
        · rw [List.mem_singleton.mp hid']
          exact hid
      · intro id i off hwriting
        rw [hphase] at hwriting
        cases hwriting
    · cases h
      exact hs.toGenerating ‹_›
  · cases h
    exact hs.toGenerating ha
  · cases h
    exact hs.toIdle
  · cases h
    exact hs.toIdle
  · rename_i bytes hphase
    split_ifs at h with hbytes
    cases h
    have hnil : s.returned = [] := hs.returned_eq_nil (by rw [hphase]; exact Phase.noConfusion)
    refine ⟨?_, fun hne => absurd hnil hne, ?_⟩
    · intro id hid
      rw [hnil] at hid
      cases hid
    · intro id i off hwriting
      cases hwriting
      refine ⟨⟨bytes, hbytes, rfl⟩, ?_, Nat.zero_le _, ?_⟩
      · cases hentry : s.files.entries idFile <;> simp [Files.truncate, hentry]
      · cases s.files.entries idFile <;> simp [Files.truncate]
  · rename_i id i off n hphase
    split_ifs at h with hfits
    cases h
    have hnil : s.returned = [] := hs.returned_eq_nil (by rw [hphase]; exact Phase.noConfusion)
    obtain ⟨hid, hentry, hoff, hdata⟩ := hs.writing id i off hphase
    refine ⟨?_, fun hne => absurd hnil hne, ?_⟩
    · intro id hid
      rw [hnil] at hid
      cases hid
    · intro id i off hwriting
      cases hwriting
      refine ⟨hid, hentry, hfits, ?_⟩
      simp only [Files.write, Files.file_modify, Function.update_self, hdata]
      exact Files.splice_take hoff n
  · cases h
    exact hs.toIdle
  · rename_i id i off hphase
    split_ifs at h with hoff
    cases h
    have hnil : s.returned = [] := hs.returned_eq_nil (by rw [hphase]; exact Phase.noConfusion)
    obtain ⟨hid, hentry, -, hdata⟩ := hs.writing id i off hphase
    refine ⟨?_, fun _ => rfl, fun id i off hwriting => by cases hwriting⟩
    intro id' hid'
    rw [hnil, List.nil_append, List.mem_singleton] at hid'
    rw [hid', stored_of_data hU hid hentry hdata, if_neg (by omega)]
  · cases h
    exact hs.toIdle
  · cases h

/-- What the file holds was generated. -/
def OwnID (U : Uuid) (s : State) : Prop := ∀ id, stored U s.files = some id → Generated id

/-- Only a call that is writing has changed the file. -/
theorem step_files (h : step U s a = some t) :
    t.files = s.files ∨ ∃ id i off, t.phase = .writing id i off := by
  unfold step at h
  split at h
  · split at h <;> cases h <;> exact Or.inl rfl
  · cases h
    exact Or.inl rfl
  · cases h
    exact Or.inl rfl
  · cases h
    exact Or.inl rfl
  · split_ifs at h
    cases h
    exact Or.inr ⟨_, _, _, rfl⟩
  · split_ifs at h
    cases h
    exact Or.inr ⟨_, _, _, rfl⟩
  · cases h
    exact Or.inl rfl
  · split_ifs at h
    cases h
    exact Or.inl rfl
  · cases h
    exact Or.inl rfl
  · cases h

theorem ownID_step (hU : U.Documented) (hs : Settled U s) (hown : OwnID U s)
    (ha : ReadsWhatIsThere U s a) (h : step U s a = some t) : OwnID U t := by
  intro id hid
  rcases step_files h with hfiles | ⟨id', i, off, hphase⟩
  · rw [hfiles] at hid
    exact hown id hid
  · obtain ⟨hid', hentry, -, hdata⟩ := (settled_step hU hs ha h).writing id' i off hphase
    rw [stored_of_data hU hid' hentry hdata] at hid
    split_ifs at hid
    cases hid
    exact hid'

/-- All calls that succeed return one ID. Unless one was there before, it was generated,
and the server takes it for the ID of a node. -/
theorem one_identity (hU : U.Documented) {files : Files GoString} {as : List Action}
    (hmeets : Machine.Meets (step U) (ReadsWhatIsThere U) (.init files) as)
    (hrun : Machine.run (step U) (.init files) as = some s) :
    (∀ id ∈ s.returned, ∀ id' ∈ s.returned, id = id') ∧
    (stored U files = none → ∀ id ∈ s.returned, Generated id ∧ Api.validNodeID id = true) := by
  have hinitial : Settled U (.init files) :=
    ⟨fun _ hid => absurd hid List.not_mem_nil, fun hne => absurd rfl hne, by rintro _ _ _ ⟨⟩⟩
  have hs : Settled U s := Machine.run_invariant_of_meets (step U)
    (fun s a t hs ha h => settled_step hU hs ha h) hinitial hmeets hrun
  refine ⟨?_, ?_⟩
  · intro id hid id' hid'
    exact Option.some.inj ((hs.returned id hid).symm.trans (hs.returned id' hid'))
  · intro hnone id hid
    have hempty : OwnID U (.init files) := by
      intro id hid
      rw [State.init, hnone] at hid
      cases hid
    have hboth : Settled U s ∧ OwnID U s := Machine.run_invariant_of_meets (step U)
      (I := fun s => Settled U s ∧ OwnID U s)
      (fun s a t hs ha h => ⟨settled_step hU hs.1 ha h, ownID_step hU hs.1 hs.2 ha h⟩)
      ⟨hinitial, hempty⟩ hmeets hrun
    obtain ⟨bytes, hbytes, rfl⟩ := hboth.2 id (hboth.1.returned id hid)
    exact ⟨⟨bytes, hbytes, rfl⟩, validNodeID_uuidString hbytes⟩

private def testUuid : Uuid :=
  ⟨fun s => s.length = 36 && s.all fun b => isHexDigit b || b = 0x2D⟩

private theorem testUuid_documented : testUuid.Documented where
  string bytes hbytes := by
    have hmem : ∀ b ∈ uuidString bytes, isHexDigit b = true ∨ b = 0x2D := mem_uuidString
    simpa [testUuid, length_uuidString hbytes] using hmem
  form s hs := by
    simp only [testUuid, Bool.and_eq_true, decide_eq_true_eq] at hs
    exact Or.inl hs.1

/-- The first process is killed after 20 bytes, and the second one generates another ID. -/
private def killed : List Action := [
  .readFile, .openFile (List.replicate 16 0xAB), .write 20, .kill,
  .readFile, .openFile (List.replicate 16 0xCD), .write 30, .write 6, .close,
  .readFile]

theorem one_identity_killed : ∃ s, Machine.run (step testUuid) (.init Files.empty) killed = some s ∧
    s.returned.length = 2 ∧ ∀ id ∈ s.returned, ∀ id' ∈ s.returned, id = id' := by
  have hrun : (Machine.run (step testUuid) (.init Files.empty) killed).any
      (fun s => decide (s.returned.length = 2)) = true := by
    decide +kernel
  simp only [Option.any_eq_true, decide_eq_true_eq] at hrun
  obtain ⟨s, hs, hreturned⟩ := hrun
  have hreads : ∀ a ∈ killed, ∀ s, ReadsWhatIsThere testUuid s a := by
    simp [killed, ReadsWhatIsThere]
  exact ⟨s, hs, hreturned, (one_identity testUuid_documented
    (Machine.meets_of_forall (step testUuid) hreads) hs).1⟩

end Patchli.Agent.Identity
