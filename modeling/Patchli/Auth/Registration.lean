import Patchli.Auth.Token
import Patchli.Foundation.Rfc3339

/-!
# Registration grants

`HandleSetup` signs a group, a timestamp and a new nonce; a login presents them again.
The signature is over one text in which colons separate the three. A nonce that was
granted once belongs to one group and one timestamp, also where the parts that are
presented contain colons themselves.
-/

namespace Patchli.Auth

/-- HMAC-SHA256 under the registration secret. -/
abbrev Hmac := GoString → GoString

def registrationMessage (group timestamp nonce : GoString) : GoString :=
  group ++ 0x3A :: (timestamp ++ 0x3A :: nonce)

def generateRegistrationSignature (hmac : Hmac) (group timestamp nonce : GoString) : GoString :=
  (hmac (registrationMessage group timestamp nonce)).hexEncode

/-- `NewRegistrationNonce` of the given random bytes. -/
def newRegistrationNonce (bytes : GoString) : GoString := randomHex bytes

/-- `sinceNow` and `untilNow` are the clock readings of `time.Since` and `time.Until`. -/
def validateRegistration (hmac : Hmac) (sinceNow untilNow : Time)
    (group timestamp nonce signature : GoString) : Bool :=
  let timestampValid := (Rfc3339.parse timestamp).any fun t =>
    decide (Time.sub sinceNow t ≤ 10 * minute) && decide (Time.sub t untilNow ≤ 5 * minute)
  let expected := generateRegistrationSignature hmac group timestamp nonce
  let signatureValid := signature = expected
  timestampValid && signatureValid && nonce ≠ []

/-- `^[a-zA-Z0-9._-]+$` -/
def isValidGroupName (group : GoString) : Bool :=
  group ≠ [] && group.all fun b =>
    0x61 ≤ b && b ≤ 0x7A || 0x41 ≤ b && b ≤ 0x5A || 0x30 ≤ b && b ≤ 0x39 ||
      b = 0x2E || b = 0x5F || b = 0x2D

structure Grant where
  group : GoString
  timestamp : GoString
  nonce : GoString
  deriving DecidableEq

def Grant.message (g : Grant) : GoString := registrationMessage g.group g.timestamp g.nonce

/-- The grant of `HandleSetup`, in a time zone with that offset. -/
def setupGrant (offset : ℤ) (now : Time) (bytes group : GoString) : Option Grant :=
  let group := if group = [] then ascii "default" else group
  if isValidGroupName group then
    some ⟨group, Rfc3339.format offset now, newRegistrationNonce bytes⟩
  else none

/-! ### Taking the text apart -/

/-- What the texts of a grant are like. -/
structure Grant.WellFormed (g : Grant) : Prop where
  group : 0x3A ∉ g.group
  timestamp : ∃ date rest, g.timestamp = date ++ 0x54 :: rest ∧ 0x3A ∉ date ∧ 0x54 ∉ rest
  nonce : 0x3A ∉ g.nonce ∧ 0x54 ∉ g.nonce

theorem hexDigit_not (n : ℕ) (hn : n < 16) :
    GoString.hexDigit n ≠ 0x3A ∧ GoString.hexDigit n ≠ 0x54 := by
  interval_cases n <;> decide

theorem not_mem_hexEncode (bytes : GoString) :
    0x3A ∉ bytes.hexEncode ∧ 0x54 ∉ bytes.hexEncode := by
  induction bytes with
  | nil => exact ⟨nofun, nofun⟩
  | cons b bytes ih =>
    have hb := b.toNat_lt
    have hhigh := hexDigit_not (b.toNat / 16) (by omega)
    have hlow := hexDigit_not (b.toNat % 16) (by omega)
    simp [GoString.hexEncode, ih, hhigh.1.symm, hhigh.2.symm, hlow.1.symm, hlow.2.symm]

theorem not_mem_of_isValidGroupName {group : GoString} (h : isValidGroupName group = true) :
    0x3A ∉ group := by
  intro hcolon
  simp only [isValidGroupName, Bool.and_eq_true] at h
  have hbyte := List.all_eq_true.mp h.2 0x3A hcolon
  revert hbyte
  decide

theorem setupGrant_wellFormed {offset : ℤ} {now : Time} {bytes group : GoString} {g : Grant}
    (h : setupGrant offset now bytes group = some g) : g.WellFormed := by
  simp only [setupGrant, Option.ite_none_right_eq_some, Option.some.injEq] at h
  obtain ⟨hvalid, rfl⟩ := h
  exact ⟨not_mem_of_isValidGroupName hvalid, Rfc3339.format_eq offset now,
    not_mem_hexEncode bytes⟩

/-- A separator that the first parts lack comes at the same place in equal texts. -/
theorem append_cons_inj {α : Type} {c : α} {a a' r r' : List α} (ha : c ∉ a) (ha' : c ∉ a')
    (h : a ++ c :: r = a' ++ c :: r') : a = a' ∧ r = r' := by
  induction a generalizing a' with
  | nil =>
    cases a' with
    | nil => exact ⟨rfl, (List.cons.inj h).2⟩
    | cons b a' =>
      rw [(List.cons.inj h).1] at ha'
      exact absurd (List.mem_cons_self ..) ha'
  | cons b a ih =>
    cases a' with
    | nil =>
      rw [← (List.cons.inj h).1] at ha
      exact absurd (List.mem_cons_self ..) ha
    | cons b' a' =>
      obtain ⟨rfl, htail⟩ := List.cons.inj h
      obtain ⟨rfl, rfl⟩ := ih (fun hm => ha (List.mem_cons_of_mem _ hm))
        (fun hm => ha' (List.mem_cons_of_mem _ hm)) htail
      exact ⟨rfl, rfl⟩

/-- The part before a separator is at least as long as a first part that lacks it. -/
theorem prefix_of_append_cons {α : Type} {c : α} {a a' r r' : List α} (ha : c ∉ a)
    (h : a ++ c :: r = a' ++ c :: r') : ∃ d, a' = a ++ d ∧ c :: r = d ++ c :: r' := by
  rcases List.append_eq_append_iff.mp h with ⟨d, hd, hr⟩ | ⟨d, hd, hr⟩
  · exact ⟨d, hd, hr⟩
  · cases d with
    | nil => exact ⟨[], by simpa using hd.symm, hr.symm⟩
    | cons b d =>
      obtain rfl := (List.cons.inj hr).1
      exact absurd (by rw [hd]; simp) ha

theorem Grant.WellFormed.group_eq {g : Grant} (hg : g.WellFormed)
    {group timestamp nonce : GoString} {t : Time} (ht : Rfc3339.parse timestamp = some t)
    (h : registrationMessage group timestamp nonce = g.message) : group = g.group := by
  obtain ⟨date, rest, hts, hdate, hrest⟩ := hg.timestamp
  have hletter : 0x54 ∈ timestamp := Rfc3339.mem_of_parse ht
  have htail : 0x54 ∉ rest ++ 0x3A :: g.nonce := by
    simp [hrest, hg.nonce.2]
  obtain ⟨d, rfl, hd⟩ := prefix_of_append_cons hg.group h.symm
  cases d with
  | nil => simp
  | cons c d =>
    -- the presented timestamp would begin behind the letter
    exfalso
    obtain ⟨-, hd⟩ := List.cons.inj hd
    rw [hts, List.append_assoc, List.cons_append] at hd
    rcases List.append_eq_append_iff.mp hd with ⟨e, -, he⟩ | ⟨e, he, hr⟩
    · cases e with
      | nil => cases (List.cons.inj he).1
      | cons b e =>
        obtain ⟨-, he⟩ := List.cons.inj he
        exact htail (he ▸ by simp [hletter])
    · cases e with
      | nil => cases (List.cons.inj hr).1
      | cons b e =>
        obtain ⟨rfl, -⟩ := List.cons.inj hr
        exact hdate (by simp [he])

/-- A part without the separator that ends a text ends what follows an earlier separator
too, or is all of it. -/
theorem reverse_of_append_cons {α : Type} {c : α} {a a' n m : List α} (hn : c ∉ n)
    (h : a ++ c :: n = a' ++ c :: m) : ∃ r, m.reverse ++ [c] = n.reverse ++ c :: r := by
  have hreverse : n.reverse ++ c :: a.reverse = m.reverse ++ c :: a'.reverse := by
    simpa using congrArg List.reverse h
  obtain ⟨d, hd, hr⟩ := prefix_of_append_cons (by simpa using hn) hreverse
  rw [hd]
  cases d with
  | nil => exact ⟨[], by simp⟩
  | cons b d =>
    obtain rfl := (List.cons.inj hr).1
    exact ⟨d ++ [c], by simp⟩

theorem nonce_eq_of_presented {g g' : Grant} (hg : g.WellFormed) (hg' : g'.WellFormed)
    {group group' timestamp timestamp' nonce : GoString}
    (h : registrationMessage group timestamp nonce = g.message)
    (h' : registrationMessage group' timestamp' nonce = g'.message) : g.nonce = g'.nonce := by
  -- both are what follows the last colon of the text that is presented
  have hlast {g : Grant} (hg : g.WellFormed) {group timestamp : GoString}
      (h : registrationMessage group timestamp nonce = g.message) :
      ∃ r, nonce.reverse ++ [0x3A] = g.nonce.reverse ++ 0x3A :: r := by
    have htexts : (g.group ++ 0x3A :: g.timestamp) ++ 0x3A :: g.nonce =
        (group ++ 0x3A :: timestamp) ++ 0x3A :: nonce := by
      simpa [registrationMessage, Grant.message] using h.symm
    exact reverse_of_append_cons hg.nonce.1 htexts
  obtain ⟨r, hr⟩ := hlast hg h
  obtain ⟨r', hr'⟩ := hlast hg' h'
  have hreverse : g.nonce.reverse = g'.nonce.reverse :=
    (append_cons_inj (by simpa using hg.nonce.1) (by simpa using hg'.nonce.1)
      (hr.symm.trans hr')).1
  exact List.reverse_injective hreverse

theorem timestamp_eq_of_presented {g : Grant} (hg : g.WellFormed)
    {group group' timestamp timestamp' nonce : GoString} {t t' : Time}
    (ht : Rfc3339.parse timestamp = some t) (ht' : Rfc3339.parse timestamp' = some t')
    (h : registrationMessage group timestamp nonce = g.message)
    (h' : registrationMessage group' timestamp' nonce = g.message) : timestamp = timestamp' := by
  obtain rfl := hg.group_eq ht h
  obtain rfl := hg.group_eq ht' h'
  have heq := h.trans h'.symm
  simp only [registrationMessage, List.append_cancel_left_eq, List.cons.injEq, true_and] at heq
  exact List.append_cancel_right heq

theorem split_eq_of_count {α : Type} [DecidableEq α] {c : α} {a a' n m : List α} (hn : c ∉ n)
    (hcount : a'.count c = a.count c) (h : a' ++ c :: m = a ++ c :: n) : a' = a ∧ m = n := by
  have hm : c ∉ m := by
    have hcounts := congrArg (List.count c) h
    simp only [List.count_append, List.count_cons_self, List.count_eq_zero.mpr hn] at hcounts
    exact List.count_eq_zero.mp (by omega)
  have hreverse : m.reverse ++ c :: a'.reverse = n.reverse ++ c :: a.reverse := by
    simpa using congrArg List.reverse h
  obtain ⟨hmn, haa⟩ := append_cons_inj (by simpa using hm) (by simpa using hn) hreverse
  exact ⟨List.reverse_injective haa, List.reverse_injective hmn⟩

/-! ### The grant that a signature authorises -/

def isHexDigit (b : UInt8) : Bool :=
  0x30 ≤ b && b ≤ 0x39 || 0x61 ≤ b && b ≤ 0x66 || 0x41 ≤ b && b ≤ 0x46

theorem not_mem_of_isHexDigit {nonce : GoString} (hnonce : ∀ b ∈ nonce, isHexDigit b = true) :
    0x3A ∉ nonce ∧ 0x54 ∉ nonce ∧ 0x5A ∉ nonce := by
  have hnot (c : UInt8) (hc : isHexDigit c = false) : c ∉ nonce := by
    intro hmem
    rw [hnonce c hmem] at hc
    cases hc
  exact ⟨hnot _ rfl, hnot _ rfl, hnot _ rfl⟩

theorem validateRegistration_eq_true {hmac : Hmac} {sinceNow untilNow : Time}
    {group timestamp nonce signature : GoString}
    (h : validateRegistration hmac sinceNow untilNow group timestamp nonce signature = true) :
    (∃ t, Rfc3339.parse timestamp = some t) ∧
      signature = generateRegistrationSignature hmac group timestamp nonce := by
  simp only [validateRegistration, Bool.and_eq_true, Option.any_eq_true, decide_eq_true_eq] at h
  obtain ⟨⟨⟨t, ht, -⟩, hsignature⟩, -⟩ := h
  exact ⟨⟨t, ht⟩, hsignature⟩

/-- Whatever is presented with the signature of a grant and validates is that grant. -/
theorem signature_authorises_grant {hmac : Hmac} (hinjective : Function.Injective hmac)
    {group nonce group' timestamp' nonce' : GoString} {offset : ℤ} {t sinceNow untilNow : Time}
    (hgroup : isValidGroupName group = true) (hnonce : ∀ b ∈ nonce, isHexDigit b = true)
    (h : validateRegistration hmac sinceNow untilNow group' timestamp' nonce'
      (generateRegistrationSignature hmac group (Rfc3339.format offset t) nonce) = true) :
    group' = group ∧ timestamp' = Rfc3339.format offset t ∧ nonce' = nonce := by
  obtain ⟨⟨t', ht'⟩, hsignature⟩ := validateRegistration_eq_true h
  have hmessage : registrationMessage group' timestamp' nonce' =
      registrationMessage group (Rfc3339.format offset t) nonce :=
    hinjective (GoString.hexEncode_injective hsignature.symm)
  obtain ⟨hcolon, hletter, hz⟩ := not_mem_of_isHexDigit hnonce
  have hwell : Grant.WellFormed ⟨group, Rfc3339.format offset t, nonce⟩ :=
    ⟨not_mem_of_isValidGroupName hgroup, Rfc3339.format_eq offset t, hcolon, hletter⟩
  obtain rfl := hwell.group_eq ht' hmessage
  have hrest : timestamp' ++ 0x3A :: nonce' = Rfc3339.format offset t ++ 0x3A :: nonce := by
    simpa [registrationMessage] using hmessage
  have hcount : timestamp'.count 0x3A = (Rfc3339.format offset t).count 0x3A := by
    have hcounts := congrArg (List.count 0x3A) hrest
    simp only [List.count_append, List.count_cons_self, List.count_eq_zero.mpr hcolon] at hcounts
    rcases Rfc3339.count_of_parse ht' with ⟨hz', htwo⟩ | hthree
    · rcases Rfc3339.count_format offset t with hformat | ⟨-, hformat⟩
      · rw [htwo, hformat]
      · -- the letter of the presented timestamp would come from the grant
        have hmem : 0x5A ∈ Rfc3339.format offset t ++ 0x3A :: nonce :=
          hrest ▸ List.mem_append_left _ hz'
        simp [hformat, hz] at hmem
    · rcases Rfc3339.count_format offset t with hformat | ⟨hformat, -⟩
      · omega
      · rw [hthree, hformat]
  obtain ⟨htimestamp, hnonces⟩ := split_eq_of_count hcolon hcount hrest
  exact ⟨rfl, htimestamp, hnonces⟩

/-- The grants of two setups, one minute apart. -/
def testGrants : List Grant := [
  ⟨ascii "default", ascii "1970-01-01T00:00:00Z", newRegistrationNonce (List.replicate 16 0x11)⟩,
  ⟨ascii "default", ascii "1970-01-01T00:01:00Z", newRegistrationNonce (List.replicate 16 0x22)⟩]

def firstGrant : Grant := testGrants[0]

def secondGrant : Grant := testGrants[1]

example : [setupGrant 0 0 (List.replicate 16 0x11) [],
    setupGrant 0 minute (List.replicate 16 0x22) []] = testGrants.map some := by
  decide +kernel

/-- The digests of their texts, under the secret of `SetTestSecrets`. -/
def testHmac : Hmac := GoString.tabulate (testGrants.map Grant.message |>.zip [[
    84, 39, 251, 175, 219, 188, 29, 86, 121, 214, 220, 39, 206, 8, 199, 96,
    160, 55, 122, 127, 3, 148, 179, 55, 19, 162, 231, 107, 45, 96, 208, 157], [
    2, 92, 198, 208, 84, 60, 43, 208, 5, 108, 168, 34, 109, 167, 171, 56,
    243, 26, 113, 147, 59, 76, 153, 33, 245, 99, 199, 212, 73, 245, 211, 146]])

theorem signature_authorises_grant_default : ∃ timestamp,
    validateRegistration testHmac minute minute (ascii "default") timestamp
        (newRegistrationNonce (List.replicate 16 0x11))
        (generateRegistrationSignature testHmac (ascii "default") (Rfc3339.format 0 0)
          (newRegistrationNonce (List.replicate 16 0x11))) = true ∧
      timestamp = Rfc3339.format 0 0 := by
  have hvalid : validateRegistration testHmac minute minute (ascii "default")
      (ascii "1970-01-01T00:00:00Z") (newRegistrationNonce (List.replicate 16 0x11))
      (generateRegistrationSignature testHmac (ascii "default") (Rfc3339.format 0 0)
        (newRegistrationNonce (List.replicate 16 0x11))) = true := by
    decide +kernel
  obtain ⟨-, htimestamp, -⟩ := signature_authorises_grant (GoString.tabulate_injective _)
    (by decide +kernel) (by decide +kernel) hvalid
  exact ⟨_, hvalid, htimestamp⟩

end Patchli.Auth
