import Patchli.Foundation.Text
import Patchli.Updater.Host

/-!
# Reboots on Arch

`PacmanManager.RebootRequired` of `pacman.go`. The release that `uname` reports is compared
with the version of the installed package `linux`.
-/

namespace Patchli.Updater

open Decimal Text

/-! ### Numbers in a text -/

def nonDigit (c : UInt8) : Bool := c < 0x30 || c > 0x39

/-- The first three numbers of a version. -/
def extractVersion (v : GoString) : GoString :=
  let p := fieldsFunc v nonDigit
  let p := if p.length > 3 then p.take 3 else p
  (ascii ".").intercalate p

example : extractVersion (ascii "6.4.12.arch1-1") = ascii "6.4.12" ∧
    extractVersion (ascii "6.5-rc") = ascii "6.5" := by
  decide +kernel

/-! ### RebootRequired -/

def unameCmd : Cmd := .plain "uname" ["-r"]

def pacmanCmd : Cmd := .plain "pacman" ["-Q", "linux"]

def needrestartCmd : Cmd := .plain "needrestart" ["-b", "-r", "l"]

def modulesDir (release : GoString) : GoString := ascii "/usr/lib/modules/" ++ release

section

variable {ε : Type*} (host : Host ε)

/-- The installed package has another version than the running kernel. -/
def kernelReplaced (runningKernel : GoString) : Bool :=
  match host.output pacmanCmd with
  | .error _ => false
  | .ok pacmanOut =>
    match (trimSpace pacmanOut).splitOn 0x20 with
    | _ :: installedKernel :: _ =>
      let normRunning := extractVersion runningKernel
      let normInstalled := extractVersion installedKernel
      normRunning ≠ [] ∧ normInstalled ≠ [] ∧ normRunning ≠ normInstalled
    | _ => false

def runningKernelStale : Bool :=
  match host.output unameCmd with
  | .error _ => false
  | .ok unameOut =>
    let runningKernel := trimSpace unameOut
    host.stat (modulesDir runningKernel) = .notExist || kernelReplaced host runningKernel

/-- `needrestart` reports a newer kernel. -/
def kernelPending : Bool :=
  match host.output needrestartCmd with
  | .error _ => false
  | .ok out => contains out (ascii "NEEDRESTART-KSTA: 3")

def rebootRequired : Bool := runningKernelStale host || kernelPending host

end

/-! ### Names of kernels -/

/-- Version `version.patchlevel.sublevel` of Linux, in release `archRelease-pkgrel` of
Arch. -/
structure Kernel where
  version : ℕ
  patchlevel : ℕ
  sublevel : ℕ
  archRelease : ℕ
  pkgrel : ℕ
  deriving DecidableEq

namespace Kernel

def triple (k : Kernel) : ℕ × ℕ × ℕ := (k.version, k.patchlevel, k.sublevel)

/-- What `uname -r` reports. -/
def release (k : Kernel) : GoString :=
  formatNat k.version ++ 0x2E :: (formatNat k.patchlevel ++ 0x2E :: (formatNat k.sublevel ++
    (ascii "-arch" ++ (formatNat k.archRelease ++ 0x2D :: formatNat k.pkgrel))))

/-- The version of the package, where a sublevel of zero is left out. -/
def packageVersion (k : Kernel) : GoString :=
  formatNat k.version ++ 0x2E :: (formatNat k.patchlevel ++
    ((if k.sublevel = 0 then [] else 0x2E :: formatNat k.sublevel) ++
      (ascii ".arch" ++ (formatNat k.archRelease ++ 0x2D :: formatNat k.pkgrel))))

/-- What `pacman -Q linux` reports. -/
def packageLine (k : Kernel) : GoString := ascii "linux " ++ k.packageVersion

/-- The three numbers that are taken for the version of the package. -/
def extracted (k : Kernel) : ℕ × ℕ × ℕ :=
  (k.version, k.patchlevel, if k.sublevel = 0 then k.archRelease else k.sublevel)

end Kernel

theorem nonDigit_formatNat (n : ℕ) : ∀ b ∈ formatNat n, nonDigit b = false := by
  intro b hb
  have hdigit := formatNat_digits n b hb
  simp only [isDigit, Bool.and_eq_true, decide_eq_true_eq] at hdigit
  simp [nonDigit, hdigit.1, hdigit.2]

theorem fieldsFunc_number {c : UInt8} (hc : nonDigit c = true) (n : ℕ) (s : GoString) :
    fieldsFunc (formatNat n ++ c :: s) nonDigit = formatNat n :: fieldsFunc s nonDigit :=
  fieldsFunc_field (formatNat_ne_nil n) (nonDigit_formatNat n) hc s

theorem fieldsFunc_arch (n m : ℕ) :
    fieldsFunc (ascii "arch" ++ (formatNat n ++ 0x2D :: formatNat m)) nonDigit =
      [formatNat n, formatNat m] := by
  have harch (s : GoString) : fieldsFunc (ascii "arch" ++ s) nonDigit = fieldsFunc s nonDigit := by
    change fieldsFunc (0x61 :: 0x72 :: 0x63 :: 0x68 :: s) nonDigit = _
    rw [fieldsFunc_sep rfl, fieldsFunc_sep rfl, fieldsFunc_sep rfl, fieldsFunc_sep rfl]
  rw [harch, fieldsFunc_number rfl, fieldsFunc_last (formatNat_ne_nil m) (nonDigit_formatNat m)]

/-- Three numbers with points between them. -/
def dotted (t : ℕ × ℕ × ℕ) : GoString :=
  (ascii ".").intercalate [formatNat t.1, formatNat t.2.1, formatNat t.2.2]

theorem dotted_injective : Function.Injective dotted := by
  rintro ⟨a, b, c⟩ ⟨a', b', c'⟩ h
  have hpoint (n : ℕ) : 0x2E ∉ formatNat n := by
    intro hmem
    exact absurd (formatNat_digits n _ hmem) (by decide)
  have hsplit (x y z : ℕ) : (dotted (x, y, z)).splitOn 0x2E =
      [formatNat x, formatNat y, formatNat z] := by
    apply List.splitOn_intercalate
    · simp [hpoint]
    · simp
  have hnumbers := hsplit a b c
  rw [h, hsplit] at hnumbers
  simp only [List.cons.injEq, and_true] at hnumbers
  obtain ⟨h₁, h₂, h₃⟩ := hnumbers
  have hinj {x y : ℕ} (hxy : formatNat x = formatNat y) : y = x := by
    have hx := parseNat_formatNat x
    rw [hxy, parseNat_formatNat] at hx
    exact Option.some.inj hx
  rw [hinj h₁, hinj h₂, hinj h₃]

theorem dotted_ne_nil (t : ℕ × ℕ × ℕ) : dotted t ≠ [] := by
  simp [dotted, List.intercalate, formatNat_ne_nil]

theorem extractVersion_release (k : Kernel) : extractVersion k.release = dotted k.triple := by
  have hfields : fieldsFunc k.release nonDigit = [formatNat k.version, formatNat k.patchlevel,
      formatNat k.sublevel, formatNat k.archRelease, formatNat k.pkgrel] := by
    unfold Kernel.release
    rw [fieldsFunc_number rfl, fieldsFunc_number rfl]
    change _ :: _ :: fieldsFunc (formatNat k.sublevel ++ 0x2D :: (ascii "arch" ++ _)) nonDigit = _
    rw [fieldsFunc_number rfl, fieldsFunc_arch]
  simp only [extractVersion, hfields]
  rfl

/-- When the sublevel is left out, the release of Arch takes its place. -/
theorem extractVersion_packageVersion (k : Kernel) :
    extractVersion k.packageVersion = dotted k.extracted := by
  unfold extractVersion Kernel.packageVersion Kernel.extracted
  rw [fieldsFunc_number rfl]
  by_cases hzero : k.sublevel = 0
  · rw [if_pos hzero, if_pos hzero]
    change (let p := _ :: fieldsFunc (formatNat k.patchlevel ++ 0x2E :: (ascii "arch" ++ _)) nonDigit
      let p := if p.length > 3 then p.take 3 else p
      (ascii ".").intercalate p) = _
    rw [fieldsFunc_number rfl, fieldsFunc_arch]
    rfl
  · rw [if_neg hzero, if_neg hzero]
    change (let p := _ :: fieldsFunc (formatNat k.patchlevel ++ 0x2E :: (formatNat k.sublevel ++
        0x2E :: (ascii "arch" ++ _))) nonDigit
      let p := if p.length > 3 then p.take 3 else p
      (ascii ".").intercalate p) = _
    rw [fieldsFunc_number rfl, fieldsFunc_number rfl, fieldsFunc_arch]
    rfl

/-! ### When a reboot is asked for -/

/-- The commands print what belongs to these kernels, in lines of their own. -/
structure Reports {ε : Type*} (host : Host ε) (installed running : Kernel) : Prop where
  uname : ∃ k, host.output unameCmd = .ok (running.release ++ List.replicate k 0x0A)
  pacman : ∃ k, host.output pacmanCmd = .ok (installed.packageLine ++ List.replicate k 0x0A)

theorem trimSpace_release (K : Kernel) (k : ℕ) :
    trimSpace (K.release ++ List.replicate k 0x0A) = K.release := by
  obtain ⟨d, hd, hvisible⟩ := formatNat_head K.version
  have hline : K.release = formatNat K.version ++ 0x2E :: (formatNat K.patchlevel ++ 0x2E ::
      (formatNat K.sublevel ++ (ascii "-arch" ++ (formatNat K.archRelease ++ [0x2D])))) ++
        formatNat K.pkgrel := by
    simp [Kernel.release]
  apply trimSpace_numbered hline _ hvisible
  simp [Kernel.release, hd]

theorem trimSpace_packageLine (K : Kernel) (k : ℕ) :
    trimSpace (K.packageLine ++ List.replicate k 0x0A) = K.packageLine := by
  have hline : K.packageLine = ascii "linux " ++ (formatNat K.version ++ 0x2E ::
      (formatNat K.patchlevel ++ ((if K.sublevel = 0 then [] else 0x2E :: formatNat K.sublevel) ++
        (ascii ".arch" ++ (formatNat K.archRelease ++ [0x2D]))))) ++ formatNat K.pkgrel := by
    simp [Kernel.packageLine, Kernel.packageVersion]
  exact trimSpace_numbered hline rfl (by decide) k

variable {ε : Type*} {host : Host ε} {installed running : Kernel}

theorem splitOn_packageLine (K : Kernel) :
    K.packageLine.splitOn 0x20 = [ascii "linux", K.packageVersion] := by
  have hspace : 0x20 ∉ K.packageVersion := by
    have hnumber (n : ℕ) : 0x20 ∉ formatNat n := by
      intro hmem
      exact absurd (formatNat_digits n _ hmem) (by decide)
    have harch : 0x20 ∉ ascii ".arch" := by decide
    unfold Kernel.packageVersion
    split <;> simp [hnumber, harch]
  have hline : K.packageLine = [0x20].intercalate [ascii "linux", K.packageVersion] := by
    simp [Kernel.packageLine, List.intercalate, ascii]
  rw [hline]
  apply List.splitOn_intercalate
  · intro s hs
    rcases List.mem_pair.mp hs with rfl | rfl
    · decide
    · exact hspace
  · simp

theorem rebootRequired_eq (h : Reports host installed running) :
    rebootRequired host = (decide (host.stat (modulesDir running.release) = .notExist) ||
      decide (running.triple ≠ installed.extracted) || kernelPending host) := by
  obtain ⟨⟨j, huname⟩, ⟨k, hpacman⟩⟩ := h
  have hreplaced : kernelReplaced host running.release =
      decide (running.triple ≠ installed.extracted) := by
    simp only [kernelReplaced, hpacman, trimSpace_packageLine, splitOn_packageLine,
      extractVersion_release, extractVersion_packageVersion]
    simp [dotted_ne_nil, dotted_injective.eq_iff]
  simp only [rebootRequired, runningKernelStale, huname, trimSpace_release, hreplaced]

theorem rebootRequired_eq_false (h : Reports host installed running) :
    rebootRequired host = false ↔ host.stat (modulesDir running.release) ≠ .notExist ∧
      running.triple = installed.extracted ∧ kernelPending host = false := by
  rw [rebootRequired_eq h]
  simp [and_assoc]

/-- No reboot is asked for while the installed kernel runs, and one is asked for while a
kernel of another version runs. -/
structure Answers (host : Host ε) (installed running : Kernel) : Prop where
  same : installed = running → host.stat (modulesDir running.release) = .found →
    kernelPending host = false → rebootRequired host = false
  other : installed.triple ≠ running.triple → rebootRequired host = true

/-- The package leaves out its sublevel, and the release of Arch that is read in its place
either tells the installed kernel from itself or is the sublevel of the running one. -/
def Misread (host : Host ε) (installed running : Kernel) : Prop :=
  installed.sublevel = 0 ∧ installed.archRelease ≠ 0 ∧ kernelPending host = false ∧
    (installed = running ∧ host.stat (modulesDir running.release) = .found ∨
      running.triple = (installed.version, installed.patchlevel, installed.archRelease) ∧
        host.stat (modulesDir running.release) ≠ .notExist)

theorem not_misread (h : Reports host installed running) (hans : Answers host installed running) :
    ¬ Misread host installed running := by
  rintro ⟨hsub, harch, hpending, ⟨hsame, hfound⟩ | ⟨htriple, hexists⟩⟩
  · have hfalse := (rebootRequired_eq_false h).mp (hans.same hsame hfound hpending)
    have hextracted := hfalse.2.1
    rw [← hsame, Kernel.triple, Kernel.extracted, if_pos hsub, hsub] at hextracted
    simp only [Prod.mk.injEq, true_and] at hextracted
    exact harch hextracted.symm
  · have hne : installed.triple ≠ running.triple := by
      rw [htriple, Kernel.triple, hsub]
      intro heq
      simp only [Prod.mk.injEq, true_and] at heq
      exact harch heq.symm
    have hextracted : running.triple = installed.extracted := by
      rw [htriple, Kernel.extracted, if_pos hsub]
    have hfalse := (rebootRequired_eq_false h).mpr ⟨hexists, hextracted, hpending⟩
    rw [hans.other hne] at hfalse
    cases hfalse

/-- The answer is right unless the release of Arch is taken for a sublevel. -/
theorem reboot_answers_iff (h : Reports host installed running) :
    Answers host installed running ↔ ¬ Misread host installed running := by
  refine ⟨not_misread h, fun hread => ⟨?_, ?_⟩⟩
  · intro hsame hfound hpending
    apply (rebootRequired_eq_false h).mpr
    refine ⟨by simp [hfound], ?_, hpending⟩
    rw [← hsame, Kernel.triple, Kernel.extracted]
    by_cases hsub : installed.sublevel = 0
    · have harch : installed.archRelease = 0 := by
        by_contra harch
        exact hread ⟨hsub, harch, hpending, Or.inl ⟨hsame, hfound⟩⟩
      rw [if_pos hsub, hsub, harch]
    · rw [if_neg hsub]
  · intro hne
    by_contra hreboot
    rw [Bool.not_eq_true] at hreboot
    obtain ⟨hexists, htriple, hpending⟩ := (rebootRequired_eq_false h).mp hreboot
    by_cases hsub : installed.sublevel = 0
    · rw [Kernel.extracted, if_pos hsub] at htriple
      have harch : installed.archRelease ≠ 0 := by
        intro harch
        rw [htriple, Kernel.triple, hsub, harch] at hne
        exact hne rfl
      exact hread ⟨hsub, harch, hpending, Or.inr ⟨htriple, hexists⟩⟩
    · rw [Kernel.extracted, if_neg hsub] at htriple
      exact hne htriple.symm

/-- A host that runs `running` with all its modules, and has `installed` installed. -/
def archHost (installed running : Kernel) : Host Unit where
  run _ := ([], none)
  output cmd :=
    if cmd = unameCmd then .ok (running.release ++ ascii "\n")
    else if cmd = pacmanCmd then .ok (installed.packageLine ++ ascii "\n")
    else .error ()
  stat path := if path = modulesDir running.release then .found else .notExist

theorem archHost_reports (installed running : Kernel) :
    Reports (archHost installed running) installed running := by
  have hne : pacmanCmd ≠ unameCmd := by decide
  refine ⟨⟨1, ?_⟩, ⟨1, ?_⟩⟩
  · simp [archHost, ascii]
  · simp [archHost, hne, ascii]

theorem reboot_answers_iff_stable : Answers (archHost ⟨6, 4, 12, 1, 1⟩ ⟨6, 4, 12, 1, 1⟩)
    ⟨6, 4, 12, 1, 1⟩ ⟨6, 4, 12, 1, 1⟩ := by
  apply (reboot_answers_iff (archHost_reports _ _)).mpr
  rintro ⟨hsub, -⟩
  cases hsub

/-- Release 6.5.0-arch1-1, whose package is `linux 6.5.arch1-1`. -/
theorem not_reboot_answers : ¬ ∀ (host : Host Unit) (installed running : Kernel),
    Reports host installed running → Answers host installed running := by
  intro h
  have hreports := archHost_reports ⟨6, 5, 0, 1, 1⟩ ⟨6, 5, 0, 1, 1⟩
  apply not_misread hreports (h _ _ _ hreports)
  exact ⟨rfl, by decide, rfl, Or.inl ⟨rfl, by simp [archHost]⟩⟩

end Patchli.Updater
