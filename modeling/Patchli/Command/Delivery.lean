import Patchli.Agent.CommandAuth

/-!
# Signed commands across the wire

The server signs the text of a command before it is encoded for the wire, the agent
verifies the text of the command that it decoded. Both texts are the same exactly
when all text in the command is valid UTF-8: encoding and decoding replaces other
bytes, which the server's message has as escapes and the agent's as characters.
-/

namespace Patchli.Command

open Json Cmdsign Wire Agent

theorem signedFields_delivered (cmd : CommandPayload) :
    signedFields (delivered cmd) ((delivered cmd).packages.getD []) =
      decoded (signedFields cmd (cmd.packages.getD [])) := by
  have hpackages : (delivered cmd).packages.getD [] =
      (cmd.packages.getD []).map Utf8.toValid := by
    unfold delivered
    cases cmd.packages.getD [] <;> rfl
  rw [hpackages]
  simp only [signedFields, decoded, decodedMembers, decodedElements_strings]
  rfl

theorem commandMessage_delivered_iff {cmd : CommandPayload} :
    commandMessage (delivered cmd) = message cmd ↔ WellEncoded cmd := by
  rw [commandMessage_eq_message]
  simp only [message]
  rw [signedFields_delivered, List.append_cancel_left_eq, render_decoded_iff,
    decoded_signedFields]

section

variable {E : Ed25519} {key pub commandPubKey nodeID : GoString} {cmd signed : CommandPayload}
  {signedAt now : Time} {seen : SeenCommands}

theorem valid_encode (s : GoString) : Utf8.Valid (Base64.encode s) :=
  Utf8.valid_of_ascii fun c hc => (Base64.encode_chars s c hc).2

theorem wellEncoded_sign (hsigned : sign E (some key) signedAt cmd nodeID = signed) :
    WellEncoded signed ↔ WellEncoded { cmd with nodeID := nodeID } := by
  subst hsigned
  -- the expiry and the signature are not text that it covers
  constructor
  · rintro ⟨hid, haction, hpkgs, hpre, hpost, hcheck, hnode⟩
    exact ⟨hid, haction, hpkgs, hpre, hpost, hcheck, hnode⟩
  · rintro ⟨hid, haction, hpkgs, hpre, hpost, hcheck, hnode⟩
    exact ⟨hid, haction, hpkgs, hpre, hpost, hcheck, hnode⟩

/-- Of the checks on a delivered command only two depend on its text. -/
theorem verifyCommand_delivered (hpair : E.KeyPair key pub)
    (hpub : Base64.decode false commandPubKey = some pub)
    (hsigned : sign E (some key) signedAt cmd nodeID = signed)
    (hnow : now < Time.ofUnix signed.expiresAt)
    (hfresh : seen (E.sign key (message signed)) = none) :
    (verifyCommand E commandPubKey seen (delivered signed) nodeID now).1 = none ↔
      E.verify pub (commandMessage (delivered signed)) (E.sign key (message signed)) = true ∧
        Utf8.Valid nodeID := by
  have hsignature : decodeSized true Ed25519.signatureSize (delivered signed).signature =
      some (E.sign key (message signed)) := by
    have htext : (delivered signed).signature = Base64.encode (E.sign key (message signed)) := by
      rw [← hsigned]
      exact Utf8.toValid_of_valid (valid_encode _)
    rw [htext, decodeSized_eq_some]
    exact ⟨Base64.decode_encode true _, hpair.length_sign _⟩
  have hkey : commandPubKey ≠ [] := by
    rintro rfl
    have hlength := hpair.length_pub
    rw [← Option.some.inj hpub] at hlength
    cases hlength
  have hnode : (delivered signed).nodeID = nodeID ↔ Utf8.Valid nodeID := by
    rw [← hsigned]
    exact Utf8.valid_iff_toValid.symm
  rw [verifyCommand_accepts_iff hkey]
  constructor
  · rintro ⟨pub', sig, hpub', h⟩
    obtain rfl : pub = pub' := Option.some.inj (hpub.symm.trans (decodeSized_eq_some.mp hpub').1)
    obtain rfl := Option.some.inj (hsignature.symm.trans h.signature)
    exact ⟨h.verified, hnode.mp h.addressed⟩
  · rintro ⟨hverify, hvalid⟩
    exact ⟨pub, _, decodeSized_eq_some.mpr ⟨hpub, hpair.length_pub⟩, hsignature, hverify,
      hnode.mpr hvalid, hnow, pruneSeen_of_unseen hfresh now⟩

/-- A signature that verifies binds the agent to the message of the server. -/
theorem accepted_delivered_iff (hpair : E.KeyPair key pub)
    (hpub : Base64.decode false commandPubKey = some pub)
    (hsigned : sign E (some key) signedAt cmd nodeID = signed)
    (hbinding : ∀ m, E.verify pub m (E.sign key (message signed)) = true → m = message signed)
    (hnow : now < Time.ofUnix signed.expiresAt)
    (hfresh : seen (E.sign key (message signed)) = none) :
    (verifyCommand E commandPubKey seen (delivered signed) nodeID now).1 = none ↔
      WellEncoded { cmd with nodeID := nodeID } := by
  rw [verifyCommand_delivered hpair hpub hsigned hnow hfresh]
  constructor
  · rintro ⟨hverify, -⟩
    have hmessage := hbinding _ hverify
    exact (wellEncoded_sign hsigned).mp (commandMessage_delivered_iff.mp hmessage)
  · intro hvalid
    rw [commandMessage_delivered_iff.mpr ((wellEncoded_sign hsigned).mpr hvalid)]
    exact ⟨hpair.verify_sign _, hvalid.nodeID⟩

variable (now seen) in
/-- A signed command is delivered, and the agent accepts it if and only if all its
text is valid UTF-8. -/
theorem signed_command_accepted_iff (hpair : E.KeyPair key pub)
    (hpub : Base64.decode false commandPubKey = some pub)
    (hsigned : sign E (some key) signedAt cmd nodeID = signed)
    (hbinding : ∀ m, E.verify pub m (E.sign key (message signed)) = true → m = message signed)
    (hnow : now < Time.ofUnix signed.expiresAt)
    (hfresh : seen (E.sign key (message signed)) = none) :
    ∃ got, receive (writeJSON (envelope signed)) = some (some got) ∧
      (commandMessage got = message signed ↔ WellEncoded { cmd with nodeID := nodeID }) ∧
      ((verifyCommand E commandPubKey seen got nodeID now).1 = none ↔
        WellEncoded { cmd with nodeID := nodeID }) :=
  ⟨_, receive_envelope _, commandMessage_delivered_iff.trans (wellEncoded_sign hsigned),
    accepted_delivered_iff hpair hpub hsigned hbinding hnow hfresh⟩

end

/-! ### One key pair -/

/-- An `Ed25519` that tells one message from all others. -/
def markingEd25519 (marked : GoString) : Ed25519 :=
  let mark (m : GoString) : GoString := List.replicate 64 (if m = marked then 1 else 0)
  { sign := fun _ m => mark m
    verify := fun _ m sig => sig = mark m }

theorem markingEd25519_keyPair (marked key : GoString) :
    (markingEd25519 marked).KeyPair key (List.replicate 32 0) where
  length_pub := rfl
  length_sign _ := List.length_replicate
  verify_sign _ := decide_eq_true rfl

theorem markingEd25519_binding (marked key pub m : GoString)
    (h : (markingEd25519 marked).verify pub m ((markingEd25519 marked).sign key marked) = true) :
    m = marked := by
  by_contra hne
  simp [markingEd25519, hne] at h

def updateCommand (id : GoString) : CommandPayload :=
  ⟨id, ascii "apply_updates", some [ascii "curl"], ascii "a", ascii "b", ascii "c", [], 0, []⟩

/-- An update of node `n1`, signed at the epoch. -/
def signedUpdate (id : GoString) : CommandPayload :=
  let marked := message { updateCommand id with nodeID := ascii "n1", expiresAt := 900 }
  sign (markingEd25519 marked) (some []) 0 (updateCommand id) (ascii "n1")

theorem wellEncoded_signedUpdate {id : GoString} (hid : Utf8.Valid id) :
    WellEncoded (signedUpdate id) := by
  have hvalid : ∀ s ∈ [ascii "apply_updates", ascii "a", ascii "b", ascii "c", ascii "n1"],
      Utf8.Valid s := by
    decide
  have hpackages : ∀ s ∈ [ascii "curl"], Utf8.Valid s := by decide
  simp only [List.forall_mem_cons] at hvalid
  obtain ⟨haction, hpre, hpost, hhealth, hnode, -⟩ := hvalid
  exact ⟨hid, haction, hpackages, hpre, hpost, hhealth, hnode⟩

theorem signed_command_accepted_iff_update :
    ∃ got, receive (writeJSON (envelope (signedUpdate (ascii "j1")))) = some (some got) ∧
      commandMessage got = message (signedUpdate (ascii "j1")) ∧
      (verifyCommand (markingEd25519 (message (signedUpdate (ascii "j1"))))
        (Base64.encode (List.replicate 32 0)) (fun _ => none) got (ascii "n1") 0).1 = none := by
  obtain ⟨got, hgot, hmessage, haccepted⟩ := signed_command_accepted_iff 0 (fun _ => none)
    (markingEd25519_keyPair (message (signedUpdate (ascii "j1"))) []) (Base64.decode_encode _ _)
    (rfl : _ = signedUpdate (ascii "j1")) (markingEd25519_binding _ _ _) (by decide) rfl
  have hvalid := (wellEncoded_sign rfl).mp
    (wellEncoded_signedUpdate (show Utf8.Valid (ascii "j1") by decide))
  exact ⟨got, hgot, hmessage.mpr hvalid, haccepted.mpr hvalid⟩

/-- The ID of the job is the byte FF. -/
theorem not_signed_command_accepted : ¬ ∀ (E : Ed25519)
    (key pub commandPubKey nodeID : GoString) (cmd signed : CommandPayload) (signedAt now : Time)
    (seen : SeenCommands), E.KeyPair key pub → Base64.decode false commandPubKey = some pub →
    sign E (some key) signedAt cmd nodeID = signed →
    (∀ m, E.verify pub m (E.sign key (message signed)) = true → m = message signed) →
    now < Time.ofUnix signed.expiresAt → seen (E.sign key (message signed)) = none →
    ∃ got, receive (writeJSON (envelope signed)) = some (some got) ∧
      (verifyCommand E commandPubKey seen got nodeID now).1 = none := by
  intro h
  have hpair := markingEd25519_keyPair (message (signedUpdate [0xFF])) []
  have hbinding := markingEd25519_binding (message (signedUpdate [0xFF])) []
    (List.replicate 32 0)
  obtain ⟨got, hgot, haccepted⟩ := h _ _ _ _ _ _ (signedUpdate [0xFF]) 0 0 (fun _ => none) hpair
    (Base64.decode_encode _ _) rfl hbinding (by decide) rfl
  obtain rfl : delivered (signedUpdate [0xFF]) = got :=
    Option.some.inj (Option.some.inj ((receive_envelope _).symm.trans hgot))
  have hvalid := (accepted_delivered_iff hpair (Base64.decode_encode _ _) rfl hbinding (by decide)
    rfl).mp haccepted
  exact absurd hvalid.id (by decide)

end Patchli.Command
