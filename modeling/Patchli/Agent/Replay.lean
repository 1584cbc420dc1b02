import Patchli.Agent.CommandAuth
import Patchli.Foundation.Expiring

/-!
# Replayed commands

An accepted command is remembered by its signature until it expires. Forgetting it then
changes no verdict: whoever presents the signature again presents the same message, which
has expired too.
-/

namespace Patchli.Agent

open Json Cmdsign

/-- A call of `verifyCommand`. -/
structure VerifyCall where
  cmd : CommandPayload
  nodeID : GoString
  now : Time

section

variable (E : Ed25519)

/-- Whether each call in one process accepts its command. -/
def verdicts (commandPubKey : GoString) : SeenCommands → List VerifyCall → List Bool
  | _, [] => []
  | seen, c :: calls =>
    let (err, seen) := verifyCommand E commandPubKey seen c.cmd c.nodeID c.now
    err.isNone :: verdicts commandPubKey seen calls

/-- The signature under which a call is accepted by a verifier that has accepted these
signatures before and forgets none. -/
def admits (pub : GoString) (accepted : List GoString) (c : VerifyCall) : Option GoString :=
  (decodeSized true Ed25519.signatureSize c.cmd.signature).filter fun sig =>
    E.verify pub (commandMessage c.cmd) sig = true ∧ c.cmd.nodeID = c.nodeID ∧
      c.now < Time.ofUnix c.cmd.expiresAt ∧ sig ∉ accepted

def verdictsForever (pub : GoString) : List GoString → List VerifyCall → List Bool
  | _, [] => []
  | accepted, c :: calls =>
    match admits E pub accepted c with
    | none => false :: verdictsForever pub accepted calls
    | some sig => true :: verdictsForever pub (sig :: accepted) calls

/-- The call presents a signature that verifies. -/
def VerifyCall.Presents (pub : GoString) (c : VerifyCall) (sig : GoString) : Prop :=
  decodeSized true Ed25519.signatureSize c.cmd.signature = some sig ∧
    E.verify pub (commandMessage c.cmd) sig = true

/-- No signature that is presented verifies for two messages. -/
def Binding (pub : GoString) (calls : List VerifyCall) : Prop :=
  ∀ c ∈ calls, ∀ d ∈ calls, ∀ sig, c.Presents E pub sig → d.Presents E pub sig →
    commandMessage c.cmd = commandMessage d.cmd

end

/-- Accepted commands lapse when they expire. -/
def expiry : Lapse Time Time where
  lapsed now exp := !decide (now < exp)
  mono := by
    intro t u v htu ht
    simp only [Bool.not_eq_true', decide_eq_false_iff_not, not_lt] at ht ⊢
    exact ht.trans htu

theorem pruneSeen_eq_live (seen : SeenCommands) (now : Time) :
    pruneSeen seen now = expiry.live now seen := by
  funext k
  simp [pruneSeen, Lapse.live, expiry]

/-- The expiry is part of the message, also where other text is not valid. -/
theorem expiresAt_eq_of_message_eq {cmd cmd' : CommandPayload}
    (h : commandMessage cmd = commandMessage cmd') : cmd.expiresAt = cmd'.expiresAt := by
  have htext : render (signedFields cmd (cmd.packages.getD [])) =
      render (signedFields cmd' (cmd'.packages.getD [])) := List.append_cancel_left h
  have hparse := parse_render (integral_signedFields cmd (cmd.packages.getD []))
  rw [htext, parse_render (integral_signedFields cmd' (cmd'.packages.getD []))] at hparse
  have hdecoded := Option.some.inj hparse
  simp only [signedFields, decoded, decodedMembers, Value.object.injEq, List.cons.injEq,
    Prod.mk.injEq, Value.number.injEq, Decimal.formatInt_injective.eq_iff,
    Int64.toInt_inj] at hdecoded
  tauto

variable {E : Ed25519} {pub commandPubKey : GoString} {seen history : SeenCommands}
  {accepted : List GoString} {calls : List VerifyCall} {now : Time}

/-- `history` is what the cache would hold if nothing were deleted. -/
structure Remembers (E : Ed25519) (pub : GoString) (seen history : SeenCommands)
    (accepted : List GoString) (calls : List VerifyCall) (now : Time) : Prop where
  agree : ∀ sig, expiry.AgreeAt now sig seen history
  accepted : ∀ sig, sig ∈ accepted ↔ (history sig).isSome
  expires : ∀ c ∈ calls, ∀ sig exp, c.Presents E pub sig → history sig = some exp →
    exp = Time.ofUnix c.cmd.expiresAt

theorem pubKey_ne_nil {strict : Bool} (hpub : decodeSized strict Ed25519.publicKeySize
    commandPubKey = some pub) : commandPubKey ≠ [] := by
  rintro rfl
  obtain ⟨hdecode, hlength⟩ := decodeSized_eq_some.mp hpub
  rw [← Option.some.inj hdecode] at hlength
  cases hlength

theorem verifyCommand_of_accepts {cmd : CommandPayload} {nodeID sig : GoString}
    (hpub : decodeSized false Ed25519.publicKeySize commandPubKey = some pub)
    (h : Accepts E pub seen cmd nodeID now sig) :
    verifyCommand E commandPubKey seen cmd nodeID now =
      (none, Function.update (pruneSeen seen now) sig (some (Time.ofUnix cmd.expiresAt))) := by
  have hsigned : cmd.signature ≠ [] := by
    intro hempty
    obtain ⟨hdecode, hlength⟩ := decodeSized_eq_some.mp h.signature
    rw [hempty] at hdecode
    rw [← Option.some.inj hdecode] at hlength
    cases hlength
  simp [verifyCommand, pubKey_ne_nil hpub, hpub, hsigned, h.signature, h.verified, h.addressed,
    h.unexpired, h.fresh]

theorem verifyCommand_seen {cmd : CommandPayload} {nodeID : GoString}
    (h : (verifyCommand E commandPubKey seen cmd nodeID now).1 ≠ none) :
    (verifyCommand E commandPubKey seen cmd nodeID now).2 = seen ∨
      (verifyCommand E commandPubKey seen cmd nodeID now).2 = pruneSeen seen now := by
  have hcases : (verifyCommand E commandPubKey seen cmd nodeID now).1 = none ∨
      (verifyCommand E commandPubKey seen cmd nodeID now).2 = seen ∨
        (verifyCommand E commandPubKey seen cmd nodeID now).2 = pruneSeen seen now := by
    unfold verifyCommand
    split
    · exact Or.inl rfl
    · split
      · exact Or.inr (Or.inl rfl)
      · split
        · exact Or.inr (Or.inl rfl)
        · split
          · exact Or.inr (Or.inl rfl)
          · split
            · exact Or.inr (Or.inl rfl)
            · split
              · exact Or.inr (Or.inl rfl)
              · split
                · exact Or.inr (Or.inl rfl)
                · split
                  · exact Or.inr (Or.inr rfl)
                  · exact Or.inl rfl
  exact hcases.resolve_left h

theorem admits_eq_some {c : VerifyCall} {sig : GoString} :
    admits E pub accepted c = some sig ↔ c.Presents E pub sig ∧ c.cmd.nodeID = c.nodeID ∧
      c.now < Time.ofUnix c.cmd.expiresAt ∧ sig ∉ accepted := by
  rw [admits, Option.filter_eq_some_iff, decide_eq_true_eq, and_assoc.symm]
  rfl

theorem Remembers.initial : Remembers E pub (fun _ => none) (fun _ => none) [] calls now :=
  ⟨fun _ => rfl, by simp, nofun⟩

theorem Remembers.later {c : VerifyCall}
    (h : Remembers E pub seen history accepted (c :: calls) now) (hnow : now ≤ c.now) :
    Remembers E pub seen history accepted (c :: calls) c.now :=
  ⟨fun sig => (h.agree sig).mono hnow, h.accepted, h.expires⟩

/-- Among unexpired commands the cache knows the signatures that were accepted. -/
theorem Remembers.fresh_iff {c : VerifyCall} {sig : GoString}
    (h : Remembers E pub seen history accepted (c :: calls) c.now) (hsig : c.Presents E pub sig)
    (hexp : c.now < Time.ofUnix c.cmd.expiresAt) :
    pruneSeen seen c.now sig = none ↔ sig ∉ accepted := by
  rw [pruneSeen_eq_live, show expiry.live c.now seen sig = expiry.live c.now history sig from
    h.agree sig, h.accepted]
  cases hentry : history sig with
  | none => simp [Lapse.live, hentry]
  | some exp =>
    have heq := h.expires c (List.mem_cons_self ..) sig exp hsig hentry
    simp [Lapse.live, hentry, expiry, heq, hexp]

theorem Remembers.accepts_iff {c : VerifyCall} {sig : GoString}
    (h : Remembers E pub seen history accepted (c :: calls) c.now) :
    Accepts E pub seen c.cmd c.nodeID c.now sig ↔ admits E pub accepted c = some sig := by
  rw [admits_eq_some]
  constructor
  · intro ha
    have hsig : c.Presents E pub sig := ⟨ha.signature, ha.verified⟩
    exact ⟨hsig, ha.addressed, ha.unexpired, (h.fresh_iff hsig ha.unexpired).mp ha.fresh⟩
  · rintro ⟨hsig, haddressed, hexp, hnew⟩
    exact ⟨hsig.1, hsig.2, haddressed, hexp, (h.fresh_iff hsig hexp).mpr hnew⟩

theorem Remembers.accept {c : VerifyCall} {sig : GoString}
    (h : Remembers E pub seen history accepted (c :: calls) c.now)
    (hbinding : Binding E pub (c :: calls)) (hsig : c.Presents E pub sig) :
    Remembers E pub
      (Function.update (pruneSeen seen c.now) sig (some (Time.ofUnix c.cmd.expiresAt)))
      (Function.update history sig (some (Time.ofUnix c.cmd.expiresAt))) (sig :: accepted) calls
      c.now where
  agree k := by
    rw [pruneSeen_eq_live]
    exact (h.agree k).live_left.update sig _
  accepted k := by
    by_cases hk : k = sig
    · simp [hk]
    · simp [hk, h.accepted]
  expires d hd k exp hk hexp := by
    by_cases hks : k = sig
    · subst hks
      have hmessage := hbinding c (List.mem_cons_self ..) d (List.mem_cons_of_mem _ hd) k hsig hk
      rw [← expiresAt_eq_of_message_eq hmessage]
      simpa using hexp.symm
    · rw [Function.update_of_ne hks] at hexp
      exact h.expires d (List.mem_cons_of_mem _ hd) k exp hk hexp

theorem Remembers.reject {c : VerifyCall} {seen' : SeenCommands}
    (h : Remembers E pub seen history accepted (c :: calls) c.now)
    (hseen : seen' = seen ∨ seen' = pruneSeen seen c.now) :
    Remembers E pub seen' history accepted calls c.now := by
  have hexpires := fun d hd => h.expires d (List.mem_cons_of_mem _ hd)
  rcases hseen with rfl | rfl
  · exact ⟨h.agree, h.accepted, hexpires⟩
  · refine ⟨fun k => ?_, h.accepted, hexpires⟩
    rw [pruneSeen_eq_live]
    exact (h.agree k).live_left

theorem Binding.tail {c : VerifyCall} (h : Binding E pub (c :: calls)) : Binding E pub calls :=
  fun d hd e he => h d (List.mem_cons_of_mem _ hd) e (List.mem_cons_of_mem _ he)

theorem verdicts_eq (hpub : decodeSized false Ed25519.publicKeySize commandPubKey = some pub)
    (hsorted : calls.Pairwise fun c d => c.now ≤ d.now) (hbinding : Binding E pub calls)
    (hnow : ∀ c ∈ calls, now ≤ c.now) (h : Remembers E pub seen history accepted calls now) :
    verdicts E commandPubKey seen calls = verdictsForever E pub accepted calls := by
  induction calls generalizing seen history accepted now with
  | nil => rfl
  | cons c calls ih =>
    obtain ⟨hfirst, hsorted⟩ := List.pairwise_cons.mp hsorted
    have hc := h.later (hnow c (List.mem_cons_self ..))
    simp only [verdicts, verdictsForever]
    cases hadmits : admits E pub accepted c with
    | some sig =>
      have haccepts := hc.accepts_iff.mpr hadmits
      have hsig : c.Presents E pub sig := ⟨haccepts.signature, haccepts.verified⟩
      rw [verifyCommand_of_accepts hpub haccepts]
      exact congrArg (true :: ·) (ih hsorted hbinding.tail hfirst (hc.accept hbinding hsig))
    | none =>
      have herr : (verifyCommand E commandPubKey seen c.cmd c.nodeID c.now).1 ≠ none := by
        intro hnone
        obtain ⟨pub', sig, hpub', haccepts⟩ :=
          (verifyCommand_accepts_iff (pubKey_ne_nil hpub)).mp hnone
        obtain rfl := Option.some.inj (hpub.symm.trans hpub')
        rw [hc.accepts_iff.mp haccepts] at hadmits
        cases hadmits
      have hisNone :
          (verifyCommand E commandPubKey seen c.cmd c.nodeID c.now).1.isNone = false := by
        simpa [Option.isSome_iff_ne_none] using herr
      rw [hisNone]
      exact congrArg (false :: ·)
        (ih hsorted hbinding.tail hfirst (hc.reject (verifyCommand_seen herr)))

/-- With a valid key and a clock that does not go back, the calls in one process accept
and reject as if no signature were ever forgotten. -/
theorem pruning_changes_no_verdict
    (hpub : decodeSized false Ed25519.publicKeySize commandPubKey = some pub)
    (hsorted : calls.Pairwise fun c d => c.now ≤ d.now) (hbinding : Binding E pub calls) :
    verdicts E commandPubKey (fun _ => none) calls = verdictsForever E pub [] calls := by
  cases calls with
  | nil => rfl
  | cons c calls =>
    exact verdicts_eq hpub hsorted hbinding (Time.first_le hsorted) .initial

/-- An `Ed25519` whose signatures tell messages of different lengths apart. -/
private def lengthEd25519 : Ed25519 where
  sign _ m := List.replicate 64 m.length.toUInt8
  verify _ m sig := sig = List.replicate 64 m.length.toUInt8

private def signedCommand (id : GoString) (expiresAt : Int64) : CommandPayload :=
  let cmd : CommandPayload := ⟨id, ascii "cleanup", none, [], [], [], ascii "n1", expiresAt, []⟩
  { cmd with signature := Base64.encode (lengthEd25519.sign [] (commandMessage cmd)) }

/-- The first command, its replay before and after its expiry, and another command. -/
private def replayedCalls : List VerifyCall := [
  ⟨signedCommand (ascii "j1") 900, ascii "n1", 0⟩,
  ⟨signedCommand (ascii "j1") 900, ascii "n1", 899 * second⟩,
  ⟨signedCommand (ascii "j1") 900, ascii "n1", 900 * second⟩,
  ⟨signedCommand (ascii "job2") 1800, ascii "n1", 900 * second⟩]

theorem pruning_changes_no_verdict_replayed :
    verdicts lengthEd25519 (Base64.encode (List.replicate 32 0)) (fun _ => none) replayedCalls =
      [true, false, false, true] := by
  have hlengths : ∀ c ∈ replayedCalls, ∀ d ∈ replayedCalls,
      (commandMessage c.cmd).length.toUInt8 = (commandMessage d.cmd).length.toUInt8 →
      commandMessage c.cmd = commandMessage d.cmd := by
    decide +kernel
  have hbinding : Binding lengthEd25519 (List.replicate 32 0) replayedCalls := by
    rintro c hc d hd sig ⟨-, hcsig⟩ ⟨-, hdsig⟩
    have hsame := (of_decide_eq_true hcsig).symm.trans (of_decide_eq_true hdsig)
    exact hlengths c hc d hd ((List.replicate_right_inj (by decide)).mp hsame)
  rw [pruning_changes_no_verdict (decodeSized_eq_some.mpr ⟨Base64.decode_encode _ _, rfl⟩)
    (by decide +kernel) hbinding]
  decide +kernel

end Patchli.Agent
