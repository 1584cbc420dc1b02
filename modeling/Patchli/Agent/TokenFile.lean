import Patchli.Foundation.Files
import Patchli.Foundation.GoString
import Patchli.Foundation.Machine

/-!
# Writing the token file

`writeTokens` of `tokens.go`, by any number of writers that take turns. Each operation may
fail, and a crash may come between any two. The mode of the directory is left out.
-/

namespace Patchli.Agent

inductive TokenName
  /-- `tokens.json` -/
  | tokens
  /-- `.tokens-*`, with what `CreateTemp` chose for the star. -/
  | temp (k : ℕ)
  deriving DecidableEq

/-- What `writeTokens` does next. -/
inductive WritePhase
  | mkdirAll
  | restrictDir
  | createTemp
  | restrictFile (k : ℕ)
  /-- The handle leads to file `i`, which holds `off` bytes. -/
  | write (k i off : ℕ)
  | close (k : ℕ)
  | rename (k : ℕ)
  /-- The deferred calls, before the result is returned. -/
  | cleanup (k : ℕ) (ok : Bool)
  | returned (k : Option ℕ) (ok : Bool)
  deriving DecidableEq

structure TokenWriter where
  data : GoString
  phase : WritePhase
  deriving DecidableEq

structure TokenDir where
  files : Files TokenName
  /-- What `CreateTemp` has chosen, which is never the same twice. -/
  used : List ℕ

inductive WriteAct
  | done
  | fails
  /-- `CreateTemp`, with the mode that the process may give a file. -/
  | creates (k mode : ℕ)
  /-- The next `n` bytes are written. -/
  | writes (n : ℕ)

/-- The mode that `restrictTokenPath` sets. -/
def restrictedMode : ℕ := 0o600

/-- One operation of `writeTokens`. -/
def TokenWriter.act (w : TokenWriter) (d : TokenDir) (x : WriteAct) :
    Option (TokenWriter × TokenDir) :=
  match w.phase, x with
  | .mkdirAll, .done => some ({ w with phase := .restrictDir }, d)
  | .mkdirAll, .fails => some ({ w with phase := .returned none false }, d)
  | .restrictDir, .done => some ({ w with phase := .createTemp }, d)
  | .restrictDir, .fails => some ({ w with phase := .returned none false }, d)
  | .createTemp, .creates k mode =>
    if k ∈ d.used ∨ d.files.entries (.temp k) ≠ none then none
    else
      some ({ w with phase := .restrictFile k }, ⟨d.files.create (.temp k) mode, k :: d.used⟩)
  | .createTemp, .fails => some ({ w with phase := .returned none false }, d)
  | .restrictFile k, .done => (d.files.entries (.temp k)).map fun i =>
    ({ w with phase := .write k i 0 },
      { d with files := d.files.modify i fun f => { f with mode := restrictedMode } })
  | .restrictFile k, .fails => some ({ w with phase := .cleanup k false }, d)
  | .write k i off, .writes n =>
    if off + n ≤ w.data.length then
      some ({ w with phase := .write k i (off + n) },
        { d with files := d.files.write i off ((w.data.drop off).take n) })
    else none
  | .write k _ off, .done =>
    if off = w.data.length then some ({ w with phase := .close k }, d) else none
  | .write k _ _, .fails => some ({ w with phase := .cleanup k false }, d)
  | .close k, .done => some ({ w with phase := .rename k }, d)
  | .close k, .fails => some ({ w with phase := .cleanup k false }, d)
  | .rename k, .done => (d.files.rename (.temp k) .tokens).map fun files =>
    ({ w with phase := .cleanup k true }, { d with files := files })
  | .rename k, .fails => some ({ w with phase := .cleanup k false }, d)
  | .cleanup k ok, .done =>
    some ({ w with phase := .returned (some k) ok }, { d with files := d.files.remove (.temp k) })
  | _, _ => none

structure TokenWriters (ι : Type*) where
  dir : TokenDir
  writers : ι → TokenWriter

variable {ι : Type*} [DecidableEq ι]

def TokenWriters.step (s : TokenWriters ι) (x : ι × WriteAct) : Option (TokenWriters ι) :=
  ((s.writers x.1).act s.dir x.2).map fun r => ⟨r.2, Function.update s.writers x.1 r.1⟩

/-- Writers that have been called with some data. -/
def TokenWriters.init (files : Files TokenName) (data : ι → GoString) : TokenWriters ι :=
  ⟨⟨files, []⟩, fun i => ⟨data i, .mkdirAll⟩⟩

/-! ### One writer -/

def TokenWriter.temp (w : TokenWriter) : Option ℕ :=
  match w.phase with
  | .mkdirAll | .restrictDir | .createTemp => none
  | .restrictFile k | .write k _ _ | .close k | .rename k | .cleanup k _ => some k
  | .returned k _ => k

/-- The rename has succeeded. -/
def TokenWriter.succeeded (w : TokenWriter) : Bool :=
  match w.phase with
  | .cleanup _ ok | .returned _ ok => ok
  | _ => false

/-- What a writer knows of its temporary file, whose number is `base` or more. -/
def TokenWriter.Owns (w : TokenWriter) (base : ℕ) (files : Files TokenName) : Prop :=
  match w.phase with
  | .restrictFile k => ∃ i, files.entries (.temp k) = some i ∧ base ≤ i ∧ (files.file i).data = []
  | .write k i off => files.entries (.temp k) = some i ∧ base ≤ i ∧ off ≤ w.data.length ∧
      files.file i = ⟨w.data.take off, restrictedMode⟩
  | .close k | .rename k =>
    ∃ i, files.entries (.temp k) = some i ∧ base ≤ i ∧ files.file i = ⟨w.data, restrictedMode⟩
  | .cleanup k ok => ok = true → files.entries (.temp k) = none
  | .returned k _ => ∀ t ∈ k, files.entries (.temp t) = none
  | _ => True

/-- Whoever reads the token file or the temporary file of another writer sees no
difference. -/
structure Untouched (files files' : Files TokenName) (n : TokenName) : Prop where
  entries : files'.entries n = files.entries n
  file : ∀ i, files.entries n = some i → files'.file i = files.file i

structure Writes (base : ℕ) (d d' : TokenDir) (w w' : TokenWriter) : Prop where
  data : w'.data = w.data
  owns : w'.Owns base d'.files
  temp : w'.temp = w.temp ∧ d'.used = d.used ∨
    ∃ k, w'.temp = some k ∧ k ∉ d.used ∧ d'.used = k :: d.used
  others : ∀ k, w.temp ≠ some k → k ∈ d.used → Untouched d.files d'.files (.temp k)
  tokens : Untouched d.files d'.files .tokens ∧ w'.succeeded = w.succeeded ∨
    w'.succeeded = true ∧ d'.files.lookup .tokens = some ⟨w.data, restrictedMode⟩
  fresh : d.files.fresh ≤ d'.files.fresh
  restricted : ∀ i, d'.files.file i = d.files.file i ∧ (i < d'.files.fresh → i < d.files.fresh) ∨
    base ≤ i ∧ ((d'.files.file i).data ≠ [] → (d'.files.file i).mode = restrictedMode)

variable {base : ℕ} {d : TokenDir} {w w' : TokenWriter} {k i : ℕ}

omit [DecidableEq ι] in
theorem Untouched.refl (files : Files TokenName) (n : TokenName) : Untouched files files n :=
  ⟨rfl, fun _ _ => rfl⟩

theorem writes_nothing (hdata : w'.data = w.data) (howns : w'.Owns base d.files)
    (htemp : w'.temp = w.temp) (hsucceeded : w'.succeeded = w.succeeded) :
    Writes base d d w w' where
  data := hdata
  owns := howns
  temp := Or.inl ⟨htemp, rfl⟩
  others _ _ _ := .refl _ _
  tokens := Or.inl ⟨.refl _ _, hsucceeded⟩
  fresh := le_rfl
  restricted _ := Or.inl ⟨rfl, id⟩

theorem Files.untouched_modify {files : Files TokenName} {m n : TokenName}
    (hi : files.entries m = some i) (hmn : n ≠ m) (f : File → File) :
    Untouched files (files.modify i f) n where
  entries := rfl
  file j hj := by
    have hij : j ≠ i := by
      rintro rfl
      exact hmn (files.injective hj hi)
    simp [hij]

theorem writes_temp {f : File → File} (hi : d.files.entries (.temp k) = some i) (hbase : base ≤ i)
    (hw : w.temp = some k) (hdata : w'.data = w.data)
    (howns : w'.Owns base (d.files.modify i f)) (htemp : w'.temp = some k)
    (hsucceeded : w'.succeeded = w.succeeded)
    (hmode : (f (d.files.file i)).mode = restrictedMode) :
    Writes base d { d with files := d.files.modify i f } w w' where
  data := hdata
  owns := howns
  temp := Or.inl ⟨htemp.trans hw.symm, rfl⟩
  others t ht _ := by
    apply Files.untouched_modify hi
    rintro ⟨⟩
    exact ht hw
  tokens := Or.inl ⟨Files.untouched_modify hi (by simp) f, hsucceeded⟩
  fresh := le_rfl
  restricted j := by
    by_cases hji : j = i
    · subst hji
      exact Or.inr ⟨hbase, fun _ => by simpa using hmode⟩
    · exact Or.inl ⟨by simp [hji], id⟩

theorem writes_create {mode : ℕ} (hbase : base ≤ d.files.fresh) (hk : k ∉ d.used)
    (hw : w = ⟨w.data, .createTemp⟩) :
    Writes base d ⟨d.files.create (.temp k) mode, k :: d.used⟩ w
      { w with phase := .restrictFile k } where
  data := rfl
  owns := ⟨d.files.fresh, by simp, hbase, by simp⟩
  temp := Or.inr ⟨k, rfl, hk, rfl⟩
  others t _ ht := by
    have htk : t ≠ k := by
      rintro rfl
      exact hk ht
    refine ⟨by simp [htk], fun j hj => ?_⟩
    have hlt := d.files.lt_fresh hj
    simp [hlt.ne]
  tokens := by
    refine Or.inl ⟨⟨by simp, fun j hj => ?_⟩, by rw [hw]; rfl⟩
    have hlt := d.files.lt_fresh hj
    simp [hlt.ne]
  fresh := Nat.le_succ _
  restricted j := by
    by_cases hj : j = d.files.fresh
    · subst hj
      exact Or.inr ⟨hbase, by simp⟩
    · refine Or.inl ⟨by simp [hj], fun hlt => ?_⟩
      rw [Files.fresh_create] at hlt
      omega

theorem writes_rename {files : Files TokenName} (hw : w = ⟨w.data, .rename k⟩)
    (howns : w.Owns base d.files) (h : d.files.rename (.temp k) .tokens = some files) :
    Writes base d { d with files := files } w { w with phase := .cleanup k true } := by
  rw [hw] at howns
  obtain ⟨i, hi, hbase, hfile⟩ := howns
  have hfiles : files = d.files.move (.temp k) .tokens := by
    simpa [Files.rename, hi] using h.symm
  subst hfiles
  refine ⟨rfl, fun _ => ?_, Or.inl ⟨by rw [hw]; rfl, rfl⟩, fun t ht _ => ?_,
    Or.inr ⟨rfl, ?_⟩, le_rfl, fun _ => Or.inl ⟨rfl, id⟩⟩
  · simp [Files.entries_move]
  · have htk : t ≠ k := by
      rintro rfl
      exact ht (by rw [hw]; rfl)
    exact ⟨by simp [Files.entries_move, htk], fun _ _ => rfl⟩
  · simp [Files.lookup, Files.entries_move, hi, hfile]

theorem writes_cleanup {ok : Bool} (hw : w = ⟨w.data, .cleanup k ok⟩) :
    Writes base d { d with files := d.files.remove (.temp k) } w
      { w with phase := .returned (some k) ok } := by
  refine ⟨rfl, by simp [TokenWriter.Owns], Or.inl ⟨by rw [hw]; rfl, rfl⟩, fun t ht _ => ?_,
    Or.inl ⟨⟨by simp, fun _ _ => rfl⟩, by rw [hw]; rfl⟩, le_rfl, fun _ => Or.inl ⟨rfl, id⟩⟩
  have htk : t ≠ k := by
    rintro rfl
    exact ht (by rw [hw]; rfl)
  exact ⟨by simp [htk], fun _ _ => rfl⟩

section

variable {d' : TokenDir}

theorem fails_writes (h : w.act d .fails = some (w', d')) : Writes base d d' w w' := by
  obtain ⟨data, phase⟩ := w
  cases phase with
  | mkdirAll | restrictDir | createTemp =>
    cases h
    exact writes_nothing rfl (by simp [TokenWriter.Owns]) rfl rfl
  | restrictFile | write | close | rename =>
    cases h
    exact writes_nothing rfl nofun rfl rfl
  | cleanup | returned => cases h

theorem creates_writes {mode : ℕ} (hbase : base ≤ d.files.fresh)
    (h : w.act d (.creates k mode) = some (w', d')) : Writes base d d' w w' := by
  obtain ⟨data, phase⟩ := w
  cases phase with
  | createTemp =>
    simp only [TokenWriter.act, Option.ite_none_left_eq_some, Option.some.injEq,
      Prod.mk.injEq, not_or] at h
    obtain ⟨⟨hk, -⟩, rfl, rfl⟩ := h
    exact writes_create hbase hk rfl
  | _ => cases h

theorem bytes_writes {n : ℕ} (howns : w.Owns base d.files)
    (h : w.act d (.writes n) = some (w', d')) : Writes base d d' w w' := by
  obtain ⟨data, phase⟩ := w
  cases phase with
  | write k i off =>
    obtain ⟨hi, hbase, hoff, hfile⟩ := id howns
    simp only [TokenWriter.act, Option.ite_none_right_eq_some, Option.some.injEq,
      Prod.mk.injEq] at h
    obtain ⟨hn, rfl, rfl⟩ := h
    refine writes_temp hi hbase rfl rfl ⟨hi, hbase, hn, ?_⟩ rfl rfl (by simp [hfile])
    simp [hfile, Files.splice_take hoff]
  | _ => cases h

theorem done_writes (howns : w.Owns base d.files) (h : w.act d .done = some (w', d')) :
    Writes base d d' w w' := by
  obtain ⟨data, phase⟩ := w
  cases phase with
  | mkdirAll | restrictDir =>
    cases h
    exact writes_nothing rfl (by simp [TokenWriter.Owns]) rfl rfl
  | restrictFile k =>
    obtain ⟨j, hj, hbase, hdata⟩ := howns
    simp only [TokenWriter.act, hj, Option.map_some, Option.some.injEq, Prod.mk.injEq] at h
    obtain ⟨rfl, rfl⟩ := h
    refine writes_temp hj hbase rfl rfl ⟨hj, hbase, Nat.zero_le _, ?_⟩ rfl rfl rfl
    simp [hdata]
  | write k i off =>
    obtain ⟨hi, hbase, hoff, hfile⟩ := howns
    simp only [TokenWriter.act, Option.ite_none_right_eq_some, Option.some.injEq,
      Prod.mk.injEq] at h
    obtain ⟨rfl, rfl, rfl⟩ := h
    refine writes_nothing rfl ⟨i, hi, hbase, ?_⟩ rfl rfl
    rw [hfile, List.take_length]
  | close k =>
    cases h
    exact writes_nothing rfl howns rfl rfl
  | rename k =>
    obtain ⟨files, hfiles, heq⟩ := Option.map_eq_some_iff.mp h
    cases heq
    exact writes_rename rfl howns hfiles
  | cleanup k ok =>
    cases h
    exact writes_cleanup rfl
  | createTemp | returned => cases h

theorem act_writes (x : WriteAct) (hbase : base ≤ d.files.fresh) (howns : w.Owns base d.files)
    (h : w.act d x = some (w', d')) : Writes base d d' w w' := by
  cases x with
  | done => exact done_writes howns h
  | fails => exact fails_writes h
  | creates k mode => exact creates_writes hbase h
  | writes n => exact bytes_writes howns h

end

/-! ### All writers -/

/-- What holds while writers take turns on a directory that was `files` at first. -/
structure TokensSafe (files : Files TokenName) (data : ι → GoString) (s : TokenWriters ι) :
    Prop where
  same : ∀ i, (s.writers i).data = data i
  fresh : files.fresh ≤ s.dir.files.fresh
  owns : ∀ i, (s.writers i).Owns files.fresh s.dir.files
  used : ∀ i k, (s.writers i).temp = some k → k ∈ s.dir.used
  distinct : ∀ i j k, (s.writers i).temp = some k → (s.writers j).temp = some k → i = j
  tokens : s.dir.files.lookup .tokens = files.lookup .tokens ∧
      (∀ i, (s.writers i).succeeded = false) ∨
    ∃ i, (s.writers i).succeeded = true ∧
      s.dir.files.lookup .tokens = some ⟨data i, restrictedMode⟩
  old : ∀ j < files.fresh, s.dir.files.file j = files.file j
  restricted : ∀ j, files.fresh ≤ j → j < s.dir.files.fresh → (s.dir.files.file j).data ≠ [] →
    (s.dir.files.file j).mode = restrictedMode

theorem Untouched.lookup {files files' : Files TokenName} {n : TokenName}
    (h : Untouched files files' n) : files'.lookup n = files.lookup n := by
  unfold Files.lookup
  rw [h.entries]
  cases hn : files.entries n with
  | none => rfl
  | some i => exact congrArg some (h.file i hn)

/-- Another writer's operation does not touch what a writer owns. -/
theorem TokenWriter.Owns.untouched {files files' : Files TokenName} (howns : w.Owns base files)
    (h : ∀ k, w.temp = some k → Untouched files files' (.temp k)) : w.Owns base files' := by
  obtain ⟨data, phase⟩ := w
  cases phase with
  | mkdirAll | restrictDir | createTemp => trivial
  | restrictFile k =>
    obtain ⟨i, hi, hbase, hdata⟩ := howns
    have hk := h k rfl
    exact ⟨i, by rw [hk.entries, hi], hbase, by rw [hk.file i hi, hdata]⟩
  | write k i off =>
    obtain ⟨hi, hbase, hoff, hfile⟩ := howns
    have hk := h k rfl
    exact ⟨by rw [hk.entries, hi], hbase, hoff, by rw [hk.file i hi, hfile]⟩
  | close k | rename k =>
    obtain ⟨i, hi, hbase, hfile⟩ := howns
    have hk := h k rfl
    exact ⟨i, by rw [hk.entries, hi], hbase, by rw [hk.file i hi, hfile]⟩
  | cleanup k ok =>
    intro hok
    rw [(h k rfl).entries]
    exact howns hok
  | returned k ok =>
    intro t ht
    rw [(h t ht).entries]
    exact howns t ht

variable {files : Files TokenName} {data : ι → GoString} {s t : TokenWriters ι} {x : ι × WriteAct}

theorem tokens_step (hs : TokensSafe files data s) (h : s.step x = some t) :
    Writes files.fresh s.dir t.dir (s.writers x.1) (t.writers x.1) ∧
      ∀ j ≠ x.1, t.writers j = s.writers j := by
  obtain ⟨⟨w, d⟩, hact, rfl⟩ := Option.map_eq_some_iff.mp h
  refine ⟨?_, fun j hj => Function.update_of_ne hj ..⟩
  dsimp only
  rw [Function.update_self]
  exact act_writes x.2 hs.fresh (hs.owns x.1) hact

theorem tokensSafe_step (hs : TokensSafe files data s) (h : s.step x = some t) :
    TokensSafe files data t := by
  obtain ⟨hw, hsame⟩ := tokens_step hs h
  have htemp {i : ι} {k : ℕ} (hi : (t.writers i).temp = some k) :
      (s.writers i).temp = some k ∨ i = x.1 ∧ k ∉ s.dir.used ∧ k ∈ t.dir.used := by
    by_cases hix : i = x.1
    · subst hix
      rcases hw.temp with ⟨heq, -⟩ | ⟨k', hk', hfresh, hused⟩
      · exact Or.inl (heq ▸ hi)
      · obtain rfl := Option.some.inj (hk'.symm.trans hi)
        exact Or.inr ⟨rfl, hfresh, hused ▸ List.mem_cons_self ..⟩
    · exact Or.inl (hsame i hix ▸ hi)
  have hused {k : ℕ} (hk : k ∈ s.dir.used) : k ∈ t.dir.used := by
    rcases hw.temp with ⟨-, heq⟩ | ⟨k', -, -, heq⟩
    · rwa [heq]
    · rw [heq]
      exact List.mem_cons_of_mem _ hk
  constructor
  · intro i
    by_cases hix : i = x.1
    · rw [hix, hw.data, hs.same]
    · rw [hsame i hix, hs.same]
  · exact hs.fresh.trans hw.fresh
  · intro i
    by_cases hix : i = x.1
    · rw [hix]
      exact hw.owns
    · rw [hsame i hix]
      refine (hs.owns i).untouched fun k hk => hw.others k ?_ (hs.used i k hk)
      exact fun hx => hix (hs.distinct i x.1 k hk hx)
  · intro i k hi
    rcases htemp hi with hold | ⟨-, -, hnew⟩
    · exact hused (hs.used i k hold)
    · exact hnew
  · intro i j k hi hj
    rcases htemp hi with hi | ⟨rfl, hfresh, -⟩
    · rcases htemp hj with hj | ⟨-, hfresh, -⟩
      · exact hs.distinct i j k hi hj
      · exact absurd (hs.used i k hi) hfresh
    · rcases htemp hj with hj | ⟨rfl, -, -⟩
      · exact absurd (hs.used j k hj) hfresh
      · rfl
  · rcases hw.tokens with ⟨huntouched, hsucceeded⟩ | ⟨hsucceeded, hlookup⟩
    · have hall (i : ι) : (t.writers i).succeeded = (s.writers i).succeeded := by
        by_cases hix : i = x.1
        · rw [hix, hsucceeded]
        · rw [hsame i hix]
      simp only [huntouched.lookup, hall]
      exact hs.tokens
    · exact Or.inr ⟨x.1, hsucceeded, by rw [hlookup, hs.same]⟩
  · intro j hj
    rcases hw.restricted j with ⟨heq, -⟩ | ⟨hge, -⟩
    · rw [heq, hs.old j hj]
    · omega
  · intro j hj hlt hne
    rcases hw.restricted j with ⟨heq, hfresh⟩ | ⟨-, hmode⟩
    · rw [heq] at hne ⊢
      exact hs.restricted j hj (hfresh hlt) hne
    · exact hmode hne

omit [DecidableEq ι] in
theorem tokensSafe_init (files : Files TokenName) (data : ι → GoString) :
    TokensSafe files data (TokenWriters.init files data) where
  same _ := rfl
  fresh := le_rfl
  owns _ := trivial
  used _ _ h := nomatch h
  distinct _ _ _ h := nomatch h
  tokens := Or.inl ⟨rfl, fun _ => rfl⟩
  old _ _ := rfl
  restricted _ hge hlt := absurd hlt (not_lt.mpr hge)

theorem succeeded_step (hs : TokensSafe files data s) (h : s.step x = some t) {i : ι}
    (hi : (s.writers i).succeeded = true) : (t.writers i).succeeded = true := by
  obtain ⟨hw, hsame⟩ := tokens_step hs h
  by_cases hix : i = x.1
  · subst hix
    rcases hw.tokens with ⟨-, heq⟩ | ⟨htrue, -⟩
    · rw [heq, hi]
    · exact htrue
  · rw [hsame i hix, hi]

/-- At every instant the token file is the old one or the whole of what some writer was
given. -/
theorem token_file_atomic {as : List (ι × WriteAct)}
    (hrun : Machine.run TokenWriters.step (TokenWriters.init files data) as = some s) :
    (s.dir.files.lookup .tokens = files.lookup .tokens ∨
      ∃ i, s.dir.files.lookup .tokens = some ⟨data i, restrictedMode⟩) ∧
    (∀ j < files.fresh, s.dir.files.file j = files.file j) ∧
    (∀ j, files.fresh ≤ j → j < s.dir.files.fresh → (s.dir.files.file j).data ≠ [] →
      (s.dir.files.file j).mode = restrictedMode) ∧
    (∀ i k, (s.writers i).phase = .returned k true →
      ∃ j, s.dir.files.lookup .tokens = some ⟨data j, restrictedMode⟩) ∧
    (∀ i k, (s.writers i).phase = .returned k false →
      (∀ t ∈ k, s.dir.files.entries (.temp t) = none) ∧
      ∀ bs x cs t u, as = bs ++ (i, x) :: cs →
        Machine.run TokenWriters.step (TokenWriters.init files data) bs = some t →
        t.step (i, x) = some u → u.dir.files.lookup .tokens = t.dir.files.lookup .tokens) := by
  have hsafe {as : List (ι × WriteAct)} {t : TokenWriters ι}
      (hrun : Machine.run TokenWriters.step (TokenWriters.init files data) as = some t) :
      TokensSafe files data t :=
    Machine.run_invariant TokenWriters.step (fun _ _ _ hs hstep => tokensSafe_step hs hstep)
      (tokensSafe_init files data) hrun
  have hs := hsafe hrun
  refine ⟨?_, hs.old, hs.restricted, fun i k hi => ?_, fun i k hi => ⟨?_, ?_⟩⟩
  · rcases hs.tokens with ⟨hsame, -⟩ | ⟨j, -, hj⟩
    · exact Or.inl hsame
    · exact Or.inr ⟨j, hj⟩
  · have hsucceeded : (s.writers i).succeeded = true := by
      simp [TokenWriter.succeeded, hi]
    rcases hs.tokens with ⟨-, hnone⟩ | ⟨j, -, hj⟩
    · rw [hnone i] at hsucceeded
      cases hsucceeded
    · exact ⟨j, hj⟩
  · have howns := hs.owns i
    simpa [TokenWriter.Owns, hi] using howns
  · rintro bs x cs t u rfl hbs hstep
    obtain ⟨t', hbs', hcs⟩ := (Machine.run_append TokenWriters.step).mp hrun
    obtain rfl := Option.some.inj (hbs.symm.trans hbs')
    obtain ⟨u', hstep', hcs⟩ := (Machine.run_cons TokenWriters.step).mp hcs
    obtain rfl := Option.some.inj (hstep.symm.trans hstep')
    obtain ⟨hw, -⟩ := tokens_step (hsafe hbs) hstep
    rcases hw.tokens with ⟨huntouched, -⟩ | ⟨hsucceeded, -⟩
    · exact huntouched.lookup
    · -- a writer that has succeeded does not return an error
      have hlast := (Machine.run_invariant TokenWriters.step
        (I := fun v => TokensSafe files data v ∧ (v.writers i).succeeded = true)
        (fun _ _ _ hv hstep => ⟨tokensSafe_step hv.1 hstep, succeeded_step hv.1 hstep hv.2⟩)
        ⟨tokensSafe_step (hsafe hbs) hstep, hsucceeded⟩ hcs).2
      simp [TokenWriter.succeeded, hi] at hlast

/-- A readable token file, and two writers of which the second one fails. -/
private def readableTokens : Files TokenName :=
  (Files.empty.create .tokens 0o644).write 0 0 (ascii "old-secret")

private def replacement : List (Fin 2 × WriteAct) :=
  [(0, .done), (1, .done), (0, .done), (1, .done), (0, .creates 7 0o600), (1, .creates 8 0o600),
    (0, .done), (1, .done), (0, .writes 4), (1, .writes 3), (0, .writes 6), (0, .done), (0, .done),
    (1, .fails), (0, .done), (1, .done), (0, .done)]

theorem token_file_atomic_replacement :
    ∃ s, Machine.run TokenWriters.step
        (TokenWriters.init readableTokens fun _ => ascii "new-secret") replacement = some s ∧
      s.dir.files.lookup .tokens = some ⟨ascii "new-secret", 0o600⟩ ∧
      s.dir.files.entries (.temp 8) = none := by
  have hrun : (Machine.run TokenWriters.step
      (TokenWriters.init readableTokens fun _ => ascii "new-secret") replacement).any (fun s =>
        (s.writers 0).phase = .returned (some 7) true ∧
          (s.writers 1).phase = .returned (some 8) false) = true := by
    decide +kernel
  simp only [Option.any_eq_true, decide_eq_true_eq] at hrun
  obtain ⟨s, hs, hfirst, hsecond⟩ := hrun
  have hatomic := token_file_atomic hs
  obtain ⟨j, hj⟩ := hatomic.2.2.2.1 0 _ hfirst
  exact ⟨s, hs, hj, (hatomic.2.2.2.2 1 _ hsecond).1 8 rfl⟩

end Patchli.Agent
