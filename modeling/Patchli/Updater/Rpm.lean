import Patchli.Updater.Managers
import Patchli.Updater.Pacman

/-!
# Reboots on hosts with RPM

`RebootRequired` of `dnf.go` and `yum.go`. Both ask `needs-restarting` first. Then yum
compares the running kernel with the one that was installed last, and dnf does so only
when the package of the running kernel is gone.
-/

namespace Patchli.Updater

open Text

/-! ### RebootRequired -/

def needsRestartingCmd : Cmd := .plain "needs-restarting" ["-r"]

def kernelQueryCmd (runningKernel : GoString) : Cmd :=
  ⟨ascii "rpm", [ascii "-q", ascii "kernel-" ++ runningKernel], []⟩

def lastKernelCmd : Cmd := .plain "rpm" ["-q", "--last", "kernel"]

/-- The first line of `rpm -q --last kernel` names another kernel. -/
def latestDiffers (runningKernel lastOut : GoString) : Bool :=
  match (trimSpace lastOut).splitOn 0x0A with
  | [] => false
  | latestKernelLine :: _ =>
    match fields latestKernelLine with
    | [] => false
    | latestKernel :: _ =>
      -- kernel-VERSION-ARCH -> extract VERSION-ARCH
      match splitTwo (ascii "kernel-") latestKernel with
      | none => false
      | some parts => parts.2 ≠ runningKernel

section

variable {ε : Type} (host : Host (Failure ε))

def restartAsked : Bool :=
  match (host.run needsRestartingCmd).2 with
  | some err => err.exitCode = 1
  | none => false

def latestInstalledDiffers (runningKernel : GoString) : Bool :=
  match host.output lastKernelCmd with
  | .error _ => false
  | .ok lastOut => latestDiffers runningKernel lastOut

def Yum.rebootRequired : Bool :=
  if restartAsked host then true
  else
    match host.output unameCmd with
    | .error _ => false
    | .ok unameOut => latestInstalledDiffers host (trimSpace unameOut)

def Dnf.rebootRequired : Bool :=
  if restartAsked host then true
  else
    match host.output unameCmd with
    | .error _ => false
    | .ok unameOut =>
      let runningKernel := trimSpace unameOut
      match host.output (kernelQueryCmd runningKernel) with
      | .error _ => latestInstalledDiffers host runningKernel
      | .ok _ => false

end

/-- The commands tell of these kernels, the installed ones in the order of `--last`. -/
structure RpmHost {ε : Type} (host : Host (Failure ε)) (installed : List GoString)
    (running : GoString) : Prop where
  release : running ≠ [] ∧ ∀ b ∈ running, Visible b
  releases : ∀ k ∈ installed, ∀ b ∈ k, Visible b
  uname : ∃ n, host.output unameCmd = .ok (running ++ List.replicate n 0x0A)
  query : (∃ out, host.output (kernelQueryCmd running) = .ok out) ↔ running ∈ installed
  last : ∀ k ∈ installed.head?, ∃ rest,
    host.output lastKernelCmd = .ok (ascii "kernel-" ++ k ++ 0x20 :: rest)
  noKernel : installed = [] → ∃ err, host.output lastKernelCmd = .error err

variable {ε : Type} {host : Host (Failure ε)} {installed : List GoString} {running : GoString}

theorem latestDiffers_eq {k : GoString} (hk : ∀ b ∈ k, Visible b) (running rest : GoString) :
    latestDiffers running (ascii "kernel-" ++ k ++ 0x20 :: rest) = decide (k ≠ running) := by
  have hword : ∀ b ∈ ascii "kernel-" ++ k, Visible b := by
    intro b hb
    rcases List.mem_append.mp hb with hb | hb
    · have hname : ∀ b ∈ ascii "kernel-", Visible b := by decide +kernel
      exact hname b hb
    · exact hk b hb
  have hne : ascii "kernel-" ++ k ≠ [] := by simp [ascii]
  obtain ⟨rest', hblank, htrim⟩ := trimSpace_word hne hword (Or.inr ⟨rest, rfl⟩)
  -- the line break after the word, if any, does not cut it
  have hline : ((ascii "kernel-" ++ k ++ rest').takeWhile (· ≠ 0x0A)) =
      ascii "kernel-" ++ k ++ rest'.takeWhile (· ≠ 0x0A) := by
    apply List.takeWhile_append_of_pos
    intro b hb
    have hbreak : ¬ Visible 0x0A := by decide
    have hb' := hword b hb
    simp only [decide_eq_true_eq]
    rintro rfl
    exact hbreak hb'
  have hblank' : Blank (rest'.takeWhile (· ≠ 0x0A)) := by
    rcases hblank with rfl | ⟨t, rfl⟩
    · exact Or.inl rfl
    · exact Or.inr ⟨t.takeWhile (· ≠ 0x0A), rfl⟩
  have hfirst := splitOn_head 0x0A (ascii "kernel-" ++ k ++ rest')
  rw [hline] at hfirst
  obtain ⟨lines, hlines⟩ := List.head?_eq_some_iff.mp hfirst
  obtain ⟨more, hmore⟩ := List.head?_eq_some_iff.mp (fields_first hne hword hblank')
  have hname : ascii "kernel-" ≠ [] := by decide
  simp only [latestDiffers, htrim, hlines, hmore, splitTwo_append hname]

theorem latestInstalledDiffers_eq (h : RpmHost host installed running) :
    latestInstalledDiffers host running = true ↔ ∃ k ∈ installed.head?, k ≠ running := by
  cases hhead : installed.head? with
  | none =>
    obtain ⟨err, herr⟩ := h.noKernel (List.head?_eq_none_iff.mp hhead)
    simp [latestInstalledDiffers, herr]
  | some k =>
    obtain ⟨rest, hrest⟩ := h.last k (by simp [hhead])
    have hk := h.releases k (List.mem_of_mem_head? hhead)
    simp only [latestInstalledDiffers, hrest, latestDiffers_eq hk]
    simp

theorem trimSpace_uname (h : RpmHost host installed running) (n : ℕ) :
    trimSpace (running ++ List.replicate n 0x0A) = running := by
  obtain ⟨hne, hvisible⟩ := h.release
  have hfirst := List.head?_eq_some_head hne
  have hlast := List.getLast?_eq_some_getLast hne
  exact trimSpace_line hfirst hlast ⟨hvisible _ (List.head_mem hne),
    hvisible _ (List.getLast_mem hne)⟩ n

theorem Yum.rebootRequired_iff (h : RpmHost host installed running) :
    Yum.rebootRequired host = true ↔
      restartAsked host = true ∨ ∃ k ∈ installed.head?, k ≠ running := by
  obtain ⟨n, huname⟩ := h.uname
  rw [Yum.rebootRequired, huname]
  simp only [trimSpace_uname h, ← latestInstalledDiffers_eq h]
  cases restartAsked host <;> simp

theorem Dnf.rebootRequired_iff (h : RpmHost host installed running) :
    Dnf.rebootRequired host = true ↔
      restartAsked host = true ∨ installed ≠ [] ∧ running ∉ installed := by
  obtain ⟨n, huname⟩ := h.uname
  rw [Dnf.rebootRequired, huname]
  simp only [trimSpace_uname h]
  by_cases hinstalled : running ∈ installed
  · obtain ⟨out, hout⟩ := h.query.mpr hinstalled
    rw [hout]
    cases restartAsked host <;> simp [hinstalled]
  · have hgone : ∃ err, host.output (kernelQueryCmd running) = .error err := by
      cases hquery : host.output (kernelQueryCmd running) with
      | error err => exact ⟨err, rfl⟩
      | ok out => exact absurd (h.query.mp ⟨out, hquery⟩) hinstalled
    obtain ⟨err, herr⟩ := hgone
    have hlatest : latestInstalledDiffers host running = true ↔ installed ≠ [] := by
      rw [latestInstalledDiffers_eq h]
      cases installed with
      | nil => simp
      | cons k ks =>
        have hk : k ≠ running := fun hk => hinstalled (by simp [hk])
        simp [hk]
    rw [herr]
    cases restartAsked host <;> simp [hlatest, hinstalled]

/-- Where `needs-restarting` does not ask for it, yum wants a reboot as soon as another
kernel was installed last, and dnf when the package of the running kernel is gone and
another is there. So dnf asks for no more than yum, and for less exactly while the running
kernel is still installed under a newer one. -/
theorem rpm_reboots (h : RpmHost host installed running) :
    (Yum.rebootRequired host = true ↔
      restartAsked host = true ∨ ∃ k ∈ installed.head?, k ≠ running) ∧
    (Dnf.rebootRequired host = true ↔
      restartAsked host = true ∨ installed ≠ [] ∧ running ∉ installed) ∧
    (Dnf.rebootRequired host = true → Yum.rebootRequired host = true) ∧
    (Yum.rebootRequired host ≠ Dnf.rebootRequired host ↔ restartAsked host = false ∧
      running ∈ installed ∧ installed.head? ≠ some running) := by
  have hyum := Yum.rebootRequired_iff h
  have hdnf := Dnf.rebootRequired_iff h
  have hgone : installed ≠ [] ∧ running ∉ installed → ∃ k ∈ installed.head?, k ≠ running := by
    rintro ⟨hne, hrunning⟩
    obtain ⟨k, ks, rfl⟩ := List.exists_cons_of_ne_nil hne
    exact ⟨k, rfl, fun hk => hrunning (by simp [hk])⟩
  have hle : Dnf.rebootRequired host = true → Yum.rebootRequired host = true := by
    rw [hdnf, hyum]
    exact Or.imp_right hgone
  refine ⟨hyum, hdnf, hle, fun hne => ?_, ?_⟩
  · have hboth : Yum.rebootRequired host = true ∧ ¬ Dnf.rebootRequired host = true := by
      cases hd : Dnf.rebootRequired host with
      | true => exact absurd ((hle hd).trans hd.symm) hne
      | false => exact ⟨by simpa [hd] using hne, by simp⟩
    rw [hyum, hdnf, not_or] at hboth
    obtain ⟨hyes, hasked, hno⟩ := hboth
    obtain ⟨k, hk, hdiffers⟩ := hyes.resolve_left hasked
    refine ⟨by simpa using hasked, ?_, ?_⟩
    · by_contra hrunning
      exact hno ⟨List.ne_nil_of_mem (List.mem_of_mem_head? hk), hrunning⟩
    · intro hhead
      rw [hhead] at hk
      exact hdiffers (Option.some.inj hk).symm
  · rintro ⟨hasked, hrunning, hhead⟩ heq
    obtain ⟨k, ks, rfl⟩ := List.exists_cons_of_ne_nil (List.ne_nil_of_mem hrunning)
    have hyes : Yum.rebootRequired host = true :=
      hyum.mpr (Or.inr ⟨k, rfl, fun hk => hhead (by simp [hk])⟩)
    rcases hdnf.mp (heq ▸ hyes) with hdnf | ⟨-, hgone⟩
    · rw [hasked] at hdnf
      cases hdnf
    · exact hgone hrunning

private def olderKernel : GoString := ascii "5.14.0-427.el9.x86_64"

private def newerKernel : GoString := ascii "5.14.0-503.el9.x86_64"

/-- A host without `needs-restarting` that has not been rebooted after an update. -/
def updatedHost : Host (Failure Unit) where
  run _ := ([], some ⟨(), -1⟩)
  output cmd :=
    if cmd = unameCmd then .ok (olderKernel ++ [0x0A])
    else if cmd = lastKernelCmd then
      .ok (ascii "kernel-" ++ newerKernel ++ 0x20 :: ascii " Tue 12 Nov 2024\n")
    else if cmd = kernelQueryCmd olderKernel then .ok (ascii "kernel-" ++ olderKernel ++ [0x0A])
    else .error ⟨(), 1⟩
  stat _ := .notExist

theorem updatedHost_kernels : RpmHost updatedHost [newerKernel, olderKernel] olderKernel where
  release := by decide +kernel
  releases := by decide +kernel
  uname := ⟨1, rfl⟩
  query := by
    have huname : kernelQueryCmd olderKernel ≠ unameCmd := by decide +kernel
    have hlast : kernelQueryCmd olderKernel ≠ lastKernelCmd := by decide +kernel
    simp [updatedHost, huname, hlast]
  last := by
    have huname : lastKernelCmd ≠ unameCmd := by decide +kernel
    rintro _ ⟨⟩
    exact ⟨ascii " Tue 12 Nov 2024\n", by simp only [updatedHost, if_neg huname, if_true]⟩
  noKernel := nofun

theorem rpm_reboots_updated :
    Yum.rebootRequired updatedHost ≠ Dnf.rebootRequired updatedHost := by
  refine (rpm_reboots updatedHost_kernels).2.2.2.mpr ⟨?_, ?_, ?_⟩ <;> decide +kernel

end Patchli.Updater
