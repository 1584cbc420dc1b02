import Patchli.Command.Wire

/-!
# Command signatures on the agent

`command_auth.go`, which encodes the signed fields once more and remembers the
signatures of the commands that it accepted until they expire.
-/

namespace Patchli.Agent

open Json Decimal Cmdsign

def commandSignaturePrefix : GoString := ascii "patchli-command-v1\n"

/-- The struct `commandSignedFields` of a command, its packages never nil. -/
def commandSignedFields (cmd : CommandPayload) (pkgs : List GoString) : Value := .object [
  (ascii "id", .string cmd.id),
  (ascii "action", .string cmd.action),
  (ascii "packages", .array (pkgs.map .string)),
  (ascii "pre_patch_script", .string cmd.prePatchScript),
  (ascii "post_patch_script", .string cmd.postPatchScript),
  (ascii "health_check_command", .string cmd.healthCheckCommand),
  (ascii "node_id", .string cmd.nodeID),
  (ascii "expires_at", .number (formatInt cmd.expiresAt.toInt))]

def commandMessage (cmd : CommandPayload) : GoString :=
  let pkgs := cmd.packages.getD []
  commandSignaturePrefix ++ render (commandSignedFields cmd pkgs)

theorem commandMessage_eq_message : commandMessage = message := rfl

/-- Expiry times by signature. -/
abbrev SeenCommands := GoString → Option Time

inductive VerifyError
  | invalidPubKey
  | notSigned
  | malformedSignature
  | verificationFailed
  | addressedToNode (nodeID : GoString)
  | expired
  | replayed
  deriving DecidableEq

def pruneSeen (seen : SeenCommands) (now : Time) : SeenCommands :=
  fun k => (seen k).filter fun exp => decide (now < exp)

/-- Base64 of a fixed number of bytes. -/
def decodeSized (strict : Bool) (size : ℕ) (s : GoString) : Option GoString :=
  (Base64.decode strict s).filter fun bs => decide (bs.length = size)

/-- The error, if any, and `seenCommands` afterwards. -/
def verifyCommand (E : Ed25519) (commandPubKey : GoString) (seen : SeenCommands)
    (cmd : CommandPayload) (nodeID : GoString) (now : Time) :
    Option VerifyError × SeenCommands :=
  if commandPubKey = [] then (none, seen)
  else
    match decodeSized false Ed25519.publicKeySize commandPubKey with
    | none => (some .invalidPubKey, seen)
    | some pub =>
      if cmd.signature = [] then (some .notSigned, seen)
      else
        match decodeSized true Ed25519.signatureSize cmd.signature with
        | none => (some .malformedSignature, seen)
        | some sig =>
          if E.verify pub (commandMessage cmd) sig = false then (some .verificationFailed, seen)
          else if cmd.nodeID ≠ nodeID then (some (.addressedToNode cmd.nodeID), seen)
          else if ¬ now < Time.ofUnix cmd.expiresAt then (some .expired, seen)
          else if (pruneSeen seen now sig).isSome then (some .replayed, pruneSeen seen now)
          else (none, Function.update (pruneSeen seen now) sig (some (Time.ofUnix cmd.expiresAt)))

theorem decodeSized_eq_some {strict : Bool} {size : ℕ} {s bs : GoString} :
    decodeSized strict size s = some bs ↔ Base64.decode strict s = some bs ∧ bs.length = size := by
  simp [decodeSized, Option.filter_eq_some_iff]

/-- What an agent with a key accepts. -/
structure Accepts (E : Ed25519) (pub : GoString) (seen : SeenCommands) (cmd : CommandPayload)
    (nodeID : GoString) (now : Time) (sig : GoString) : Prop where
  signature : decodeSized true Ed25519.signatureSize cmd.signature = some sig
  verified : E.verify pub (commandMessage cmd) sig = true
  addressed : cmd.nodeID = nodeID
  unexpired : now < Time.ofUnix cmd.expiresAt
  fresh : pruneSeen seen now sig = none

theorem verifyCommand_accepts_iff {E : Ed25519} {commandPubKey : GoString} {seen : SeenCommands}
    {cmd : CommandPayload} {nodeID : GoString} {now : Time} (hkey : commandPubKey ≠ []) :
    (verifyCommand E commandPubKey seen cmd nodeID now).1 = none ↔
      ∃ pub sig, decodeSized false Ed25519.publicKeySize commandPubKey = some pub ∧
        Accepts E pub seen cmd nodeID now sig := by
  unfold verifyCommand
  rw [if_neg hkey]
  constructor
  · intro h
    split at h
    · cases h
    · rename_i pub hpub
      by_cases hsigned : cmd.signature = []
      · simp [hsigned] at h
      rw [if_neg hsigned] at h
      split at h
      · cases h
      · rename_i sig hsig
        split_ifs at h with hverify hnode hexpired hseen
        refine ⟨pub, sig, hpub, hsig, ?_, ?_, ?_, ?_⟩
        · simpa using hverify
        · simpa using hnode
        · simpa using hexpired
        · simpa using hseen
  · rintro ⟨pub, sig, hpub, h⟩
    have hsigned : cmd.signature ≠ [] := by
      intro hempty
      have hsize := decodeSized_eq_some.mp h.signature
      rw [hempty] at hsize
      obtain ⟨hdecode, hlength⟩ := hsize
      rw [← Option.some.inj hdecode] at hlength
      cases hlength
    simp [hpub, hsigned, h.signature, h.verified, h.addressed, h.unexpired, h.fresh]

theorem pruneSeen_of_unseen {seen : SeenCommands} {sig : GoString} (h : seen sig = none)
    (now : Time) : pruneSeen seen now sig = none := by
  simp [pruneSeen, h]

end Patchli.Agent
