import Patchli.Foundation.Base64
import Patchli.Foundation.Json

/-!
# Signing commands

`internal/cmdsign`. The signature covers a prefix and the JSON text of the fields
that decide what the agent does, in a fixed order.
-/

namespace Patchli

/-- A slice is `none` when it is nil. -/
structure CommandPayload where
  id : GoString
  action : GoString
  packages : Option (List GoString)
  prePatchScript : GoString
  postPatchScript : GoString
  healthCheckCommand : GoString
  nodeID : GoString
  expiresAt : Int64
  signature : GoString
  deriving DecidableEq

/-- `crypto/ed25519`. -/
structure Ed25519 where
  /-- The signature of a message under a private key. -/
  sign : GoString → GoString → GoString
  /-- Whether a public key accepts a message with a signature. -/
  verify : GoString → GoString → GoString → Bool

def Ed25519.publicKeySize : ℕ := 32

def Ed25519.signatureSize : ℕ := 64

/-- `key` and `pub` belong together. -/
structure Ed25519.KeyPair (E : Ed25519) (key pub : GoString) : Prop where
  length_pub : pub.length = publicKeySize
  length_sign : ∀ m, (E.sign key m).length = signatureSize
  verify_sign : ∀ m, E.verify pub m (E.sign key m) = true

namespace Cmdsign

open Json Decimal

def commandLifetime : Duration := 15 * minute

def signaturePrefix : GoString := ascii "patchli-command-v1\n"

/-- The struct `signedFields` of a command, its packages never nil. -/
def signedFields (cmd : CommandPayload) (pkgs : List GoString) : Value := .object [
  (ascii "id", .string cmd.id),
  (ascii "action", .string cmd.action),
  (ascii "packages", .array (pkgs.map .string)),
  (ascii "pre_patch_script", .string cmd.prePatchScript),
  (ascii "post_patch_script", .string cmd.postPatchScript),
  (ascii "health_check_command", .string cmd.healthCheckCommand),
  (ascii "node_id", .string cmd.nodeID),
  (ascii "expires_at", .number (formatInt cmd.expiresAt.toInt))]

/-- The canonical bytes covered by a command signature. Encoding strings and integers
does not fail. -/
def message (cmd : CommandPayload) : GoString :=
  let pkgs := cmd.packages.getD []
  signaturePrefix ++ render (signedFields cmd pkgs)

/-- Without a key the command is returned unchanged. -/
def sign (E : Ed25519) (signingKey : Option GoString) (now : Time) (cmd : CommandPayload)
    (nodeID : GoString) : CommandPayload :=
  match signingKey with
  | none => cmd
  | some key =>
    let cmd := { cmd with
      nodeID := nodeID
      expiresAt := Time.unix (now + commandLifetime)
      signature := [] }
    { cmd with signature := Base64.encode (E.sign key (message cmd)) }

/-! ### The text of a message -/

/-- All text that a signature covers is valid UTF-8. -/
structure WellEncoded (cmd : CommandPayload) : Prop where
  id : Utf8.Valid cmd.id
  action : Utf8.Valid cmd.action
  packages : ∀ p ∈ cmd.packages.getD [], Utf8.Valid p
  prePatchScript : Utf8.Valid cmd.prePatchScript
  postPatchScript : Utf8.Valid cmd.postPatchScript
  healthCheckCommand : Utf8.Valid cmd.healthCheckCommand
  nodeID : Utf8.Valid cmd.nodeID

theorem integral_signedFields (cmd : CommandPayload) (pkgs : List GoString) :
    Integral (signedFields cmd pkgs) :=
  ⟨trivial, trivial, integral_strings pkgs, trivial, trivial, trivial, trivial, ⟨_, rfl⟩,
    trivial⟩

theorem decoded_signedFields (cmd : CommandPayload) :
    decoded (signedFields cmd (cmd.packages.getD [])) = signedFields cmd (cmd.packages.getD []) ↔
      WellEncoded cmd := by
  have hnames : ∀ name ∈ [ascii "id", ascii "action", ascii "packages", ascii "pre_patch_script",
      ascii "post_patch_script", ascii "health_check_command", ascii "node_id",
      ascii "expires_at"], Utf8.toValid name = name := by
    decide
  simp only [List.forall_mem_cons] at hnames
  have hpkgs (pkgs : List GoString) :
      (pkgs.map Utf8.toValid).map Value.string = pkgs.map Value.string ↔
        ∀ p ∈ pkgs, Utf8.Valid p := by
    simp [Utf8.valid_iff_toValid]
  simp only [signedFields, decoded, decodedMembers, hnames, decodedElements_strings,
    Value.object.injEq, List.cons.injEq, Prod.mk.injEq, Value.string.injEq, Value.array.injEq,
    hpkgs, ← Utf8.valid_iff_toValid, true_and, and_true]
  constructor
  · rintro ⟨hid, haction, hpkgs, hpre, hpost, hcheck, hnode⟩
    exact ⟨hid, haction, hpkgs, hpre, hpost, hcheck, hnode⟩
  · rintro ⟨hid, haction, hpkgs, hpre, hpost, hcheck, hnode⟩
    exact ⟨hid, haction, hpkgs, hpre, hpost, hcheck, hnode⟩

theorem eq_of_message_eq {cmd cmd' : CommandPayload} (hcmd : WellEncoded cmd')
    (h : message cmd = message cmd') :
    signedFields cmd (cmd.packages.getD []) = signedFields cmd' (cmd'.packages.getD []) := by
  apply eq_of_render_eq (integral_signedFields _ _) (integral_signedFields _ _)
    ((decoded_signedFields cmd').mpr hcmd)
  exact List.append_cancel_left h

end Cmdsign
end Patchli
