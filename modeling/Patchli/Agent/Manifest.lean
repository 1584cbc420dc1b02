import Patchli.Agent.CommandAuth
import Patchli.Agent.Version

/-!
# Release manifests

`verifyManifest` of `main.go`, and the versions that a sequence of updates installs.
-/

namespace Patchli.Agent

open Json Text Wire

/-- A signed agent release. -/
structure AgentManifest where
  version : GoString
  os : GoString
  arch : GoString
  sha256 : GoString
  size : Int64
  deriving DecidableEq

def setManifest (m : AgentManifest) (key : GoString) (v : Value) : Option AgentManifest :=
  if key.equalFold (ascii "version") then
    (decodeString m.version v).map fun s => { m with version := s }
  else if key.equalFold (ascii "os") then (decodeString m.os v).map fun s => { m with os := s }
  else if key.equalFold (ascii "arch") then
    (decodeString m.arch v).map fun s => { m with arch := s }
  else if key.equalFold (ascii "sha256") then
    (decodeString m.sha256 v).map fun s => { m with sha256 := s }
  else if key.equalFold (ascii "size") then
    (decodeInt64 m.size v).map fun n => { m with size := n }
  else some m

/-- `json.Unmarshal` into a new `agentManifest`. -/
def unmarshalManifest (text : GoString) : Option AgentManifest :=
  (parse text).bind (decodeStruct setManifest ⟨[], [], [], [], 0⟩)

inductive ManifestError
  /-- `TRUSTED_PUB_KEY not set: refusing to verify signature` -/
  | notSet
  /-- `failed to decode trusted public key` -/
  | undecodableKey
  /-- `invalid public key size` -/
  | invalidKeySize
  /-- `failed to decode signature` -/
  | undecodableSignature
  /-- `cryptographic signature verification failed` -/
  | verificationFailed
  /-- `invalid manifest` -/
  | invalidManifest
  /-- `manifest targets %s/%s, not %s/%s` -/
  | otherPlatform (os arch : GoString)
  /-- `invalid binary size %d` -/
  | invalidSize (size : Int64)
  /-- `invalid binary hash` -/
  | invalidHash
  /-- `refusing update to version %q: not newer than %q` -/
  | notNewer (version currentVersion : GoString)
  deriving DecidableEq

def maxAgentBinaryBytes : Int64 := 256 * 1024 * 1024

/-- What `verifyManifest` is given besides its arguments. -/
structure Release where
  trustedPubKey : GoString
  /-- `runtime.GOOS` -/
  goos : GoString
  /-- `runtime.GOARCH` -/
  goarch : GoString

def verifyManifest (E : Ed25519) (r : Release) (manifestBytes sigBase64 currentVersion : GoString) :
    Except ManifestError AgentManifest :=
  if r.trustedPubKey = [] then .error .notSet
  else
    match Base64.decode false r.trustedPubKey with
    | none => .error .undecodableKey
    | some pubKeyBytes =>
      if pubKeyBytes.length ≠ Ed25519.publicKeySize then .error .invalidKeySize
      else
        match Base64.decode false (trimSpace sigBase64) with
        | none => .error .undecodableSignature
        | some sigBytes =>
          if E.verify pubKeyBytes manifestBytes sigBytes = false then .error .verificationFailed
          else
            match unmarshalManifest manifestBytes with
            | none => .error .invalidManifest
            | some m =>
              if m.os ≠ r.goos ∨ m.arch ≠ r.goarch then .error (.otherPlatform m.os m.arch)
              else if m.size ≤ 0 ∨ maxAgentBinaryBytes < m.size then .error (.invalidSize m.size)
              else if m.sha256.length ≠ 64 then .error .invalidHash
              else if isNewerVersion m.version currentVersion = false then
                .error (.notNewer m.version currentVersion)
              else .ok m

/-- What an accepted manifest promises. -/
structure Verified (E : Ed25519) (r : Release) (manifestBytes currentVersion : GoString)
    (m : AgentManifest) : Prop where
  signed : ∃ pub sig, Base64.decode false r.trustedPubKey = some pub ∧
    E.verify pub manifestBytes sig = true
  decoded : unmarshalManifest manifestBytes = some m
  size : 0 < m.size ∧ m.size ≤ maxAgentBinaryBytes
  newer : isNewerVersion m.version currentVersion = true

variable {E : Ed25519} {r : Release} {manifestBytes sigBase64 currentVersion : GoString}
  {m : AgentManifest}

theorem verifyManifest_ok (h : verifyManifest E r manifestBytes sigBase64 currentVersion = .ok m) :
    Verified E r manifestBytes currentVersion m := by
  unfold verifyManifest at h
  split at h
  · cases h
  split at h
  · cases h
  rename_i pub hpub
  split at h
  · cases h
  split at h
  · cases h
  rename_i sig hsig
  split at h
  · cases h
  rename_i hverify
  split at h
  · cases h
  rename_i m' hm
  split at h
  · cases h
  split at h
  · cases h
  rename_i hsize
  split at h
  · cases h
  split at h
  · cases h
  rename_i hnewer
  cases h
  rw [not_or] at hsize
  exact ⟨⟨pub, sig, hpub, by simpa using hverify⟩, hm,
    ⟨by simpa using hsize.1, by simpa using hsize.2⟩, by simpa using hnewer⟩

/-! ### Sequences of updates -/

/-- An update that was installed, with what the server sent. -/
structure Install where
  manifestBytes : GoString
  sigBase64 : GoString
  manifest : AgentManifest

/-- Each update was accepted by the version that the one before it installed. -/
def Installs (E : Ed25519) (r : Release) : GoString → List Install → Prop
  | _, [] => True
  | currentVersion, x :: xs =>
    verifyManifest E r x.manifestBytes x.sigBase64 currentVersion = .ok x.manifest ∧
      Installs E r x.manifest.version xs

theorem Installs.newer {first : GoString} {xs : List Install} (h : Installs E r first xs) :
    (first :: xs.map (·.manifest.version)).Pairwise fun u v => isNewerVersion v u = true := by
  induction xs generalizing first with
  | nil => simp
  | cons x xs ih =>
    obtain ⟨hverify, hrest⟩ := h
    have hnewer := (verifyManifest_ok hverify).newer
    have htail := ih hrest
    rw [List.map_cons, List.pairwise_cons]
    refine ⟨fun v hv => ?_, htail⟩
    rcases List.mem_cons.mp hv with rfl | hv
    · exact hnewer
    · exact newer_trans hnewer ((List.pairwise_cons.mp htail).1 v hv)

/-- Versions are weakly ordered, the incomparable ones being those whose components are
equal up to zeros at the end; and no version that was once installed, or run at first, is
installed again, however it is spelled. -/
theorem updates_never_roll_back {first : GoString} {xs : List Install}
    (hinstalls : Installs E r first xs) :
    (∀ u, (parseVersion u).isSome → isNewerVersion u u = false) ∧
    (∀ u v, (parseVersion u).isSome → (parseVersion v).isSome → isNewerVersion u v = true →
      isNewerVersion v u = false) ∧
    (∀ u v w, (parseVersion u).isSome → (parseVersion v).isSome → (parseVersion w).isSome →
      isNewerVersion v u = true → isNewerVersion w v = true → isNewerVersion w u = true) ∧
    (∀ u v, (parseVersion u).isSome → (parseVersion v).isSome →
      (isNewerVersion u v = false ∧ isNewerVersion v u = false ↔ SameVersion u v)) ∧
    (∀ u v w, SameVersion u v → SameVersion v w → SameVersion u w) ∧
    (first :: xs.map (·.manifest.version)).Pairwise fun u v =>
      isNewerVersion v u = true ∧ ¬ SameVersion u v ∧ u ≠ v := by
  have hirrefl (u : GoString) (hu : (parseVersion u).isSome) : isNewerVersion u u = false := by
    obtain ⟨c, hc⟩ := Option.isSome_iff_exists.mp hu
    exact ((incomparable_iff hc hc).mpr ⟨c, c, hc, hc, rfl⟩).1
  refine ⟨hirrefl, ?_, ?_, ?_, ?_, ?_⟩
  · intro u v hu hv huv
    by_contra hvu
    rw [Bool.not_eq_false] at hvu
    have hself := newer_trans huv hvu
    rw [hirrefl v hv] at hself
    cases hself
  · intro u v w _ _ _ huv hvw
    exact newer_trans huv hvw
  · intro u v hu hv
    obtain ⟨c, hc⟩ := Option.isSome_iff_exists.mp hu
    obtain ⟨d, hd⟩ := Option.isSome_iff_exists.mp hv
    exact incomparable_iff hc hd
  · intro u v w huv hvw
    exact sameVersion_trans huv hvw
  · refine hinstalls.newer.imp fun {u v} huv => ⟨huv, not_sameVersion_of_newer huv, ?_⟩
    rintro rfl
    obtain ⟨d, hd⟩ := parseVersion_of_newer huv
    rw [hirrefl u (by simp [hd])] at huv
    cases huv

/-- A signature scheme that repeats the sum of the bytes. -/
def summingEd25519 : Ed25519 where
  sign _ m := List.replicate Ed25519.signatureSize (m.foldl (· + ·) 0)
  verify _ m sig := sig = List.replicate Ed25519.signatureSize (m.foldl (· + ·) 0)

def linuxRelease : Release :=
  ⟨Base64.encode (List.replicate 32 0), ascii "linux", ascii "amd64"⟩

private def released (version : GoString) : Install :=
  let bytes := render (.object [
    (ascii "version", .string version), (ascii "os", .string (ascii "linux")),
    (ascii "arch", .string (ascii "amd64")), (ascii "sha256", .string (List.replicate 64 0x61)),
    (ascii "size", .number (ascii "6"))])
  ⟨bytes, Base64.encode (summingEd25519.sign [] bytes) ++ [0x0A],
    ⟨version, ascii "linux", ascii "amd64", List.replicate 64 0x61, 6⟩⟩

theorem updates_never_roll_back_dev :
    Installs summingEd25519 linuxRelease (ascii "dev")
        [released (ascii "1.9"), released (ascii "v1.10")] ∧
      [ascii "dev", ascii "1.9", ascii "v1.10"].Pairwise fun u v =>
        isNewerVersion v u = true ∧ ¬ SameVersion u v ∧ u ≠ v := by
  have hinstalls : Installs summingEd25519 linuxRelease (ascii "dev")
      [released (ascii "1.9"), released (ascii "v1.10")] := by
    simp only [Installs]
    decide +kernel
  exact ⟨hinstalls, (updates_never_roll_back hinstalls).2.2.2.2.2⟩

end Patchli.Agent
