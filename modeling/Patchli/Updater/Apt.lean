import Patchli.Foundation.Lists
import Patchli.Updater.Host

/-!
# Updates on Debian

`apt.go`. The packages of an update are ordered so that kernels are installed last.
-/

namespace Patchli.Updater

open MoveBack

def isKernel (p : GoString) : Bool :=
  contains p (ascii "linux-image") || contains p (ascii "kernel")

def orderPackages (packages : List GoString) : List GoString :=
  if packages.length = 0 then packages
  else
    let (normal, late) := packages.foldl (collect isKernel) ([], [])
    normal ++ late

theorem orderPackages_eq (packages : List GoString) :
    orderPackages packages = moveBack isKernel packages := by
  unfold orderPackages
  split
  · rename_i hempty
    rw [List.length_eq_zero_iff.mp hempty]
    rfl
  · rw [foldl_collect]
    rfl

def aptGet (args : List GoString) : Cmd :=
  ⟨ascii "apt-get", args, [ascii "DEBIAN_FRONTEND=noninteractive"]⟩

section

variable {ε : Type*} (host : Host ε) (packages : List GoString)

/-- `AptManager.ApplyUpdates`: its result and error, and the commands that it runs. -/
def applyUpdates : (UpdateResult ε × Option ε) × List Cmd :=
  let ordered := orderPackages packages
  let args :=
    if ordered.length > 0 then [ascii "install", ascii "-y"] ++ ordered
    else [ascii "upgrade", ascii "-y"]
  let (out, err) := host.run (aptGet args)
  ((⟨err.isNone, out, err⟩, err), [aptGet args])

theorem applyUpdates_cmd : (applyUpdates host packages).2 = [{
    name := ascii "apt-get"
    args :=
      if packages = [] then [ascii "upgrade", ascii "-y"]
      else [ascii "install", ascii "-y"] ++ orderPackages packages
    env := [ascii "DEBIAN_FRONTEND=noninteractive"] }] := by
  have hlength : (orderPackages packages).length = packages.length := by
    rw [orderPackages_eq]
    exact (moveBack_perm isKernel packages).length_eq
  have hnone : packages = [] ↔ ¬ (orderPackages packages).length > 0 := by
    rw [hlength, ← List.length_eq_zero_iff]
    omega
  simp only [applyUpdates, aptGet, hnone, ite_not]

/-- Kernels are moved behind the other packages and nothing else is changed. The one command
that runs installs all of them, or brings everything up to date if none are given. -/
theorem kernels_installed_last :
    (orderPackages packages).Perm packages ∧
      ((orderPackages packages).Pairwise fun p q => isKernel p = true → isKernel q = true) ∧
      (orderPackages packages).filter isKernel = packages.filter isKernel ∧
      (orderPackages packages).filter (fun p => !isKernel p) =
        packages.filter (fun p => !isKernel p) ∧
      orderPackages (orderPackages packages) = orderPackages packages ∧
      (applyUpdates host packages).2 = [{
        name := ascii "apt-get"
        args :=
          if packages = [] then [ascii "upgrade", ascii "-y"]
          else [ascii "install", ascii "-y"] ++ orderPackages packages
        env := [ascii "DEBIAN_FRONTEND=noninteractive"] }] ∧
      ∀ p, (orderPackages packages).count p = packages.count p := by
  have hcmd := applyUpdates_cmd host packages
  rw [orderPackages_eq packages] at hcmd ⊢
  have hperm := moveBack_perm isKernel packages
  refine ⟨hperm, moveBack_pairwise isKernel packages, filter_moveBack isKernel packages,
    filter_not_moveBack isKernel packages, ?_, hcmd, hperm.count_eq⟩
  rw [orderPackages_eq, moveBack_moveBack]

end

/-- Two kernels among four packages. -/
theorem kernels_installed_last_mixed :
    (applyUpdates (⟨fun _ => ([], none), fun _ => .ok [], fun _ => .notExist⟩ : Host Unit)
        [ascii "linux-image-6.1", ascii "curl", ascii "kernel-tools", ascii "vim"]).2 =
      [⟨ascii "apt-get", [ascii "install", ascii "-y", ascii "curl", ascii "vim",
        ascii "linux-image-6.1", ascii "kernel-tools"], [ascii "DEBIAN_FRONTEND=noninteractive"]⟩] :=
  (kernels_installed_last _ _).2.2.2.2.2.1.trans (by decide +kernel)

end Patchli.Updater
