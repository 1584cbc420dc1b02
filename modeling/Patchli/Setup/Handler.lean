import Patchli.Auth.Registration
import Patchli.Foundation.Calendar
import Patchli.Proxy.Scheme
import Patchli.Setup.PosixScripts
import Patchli.Setup.WindowsScript

/-!
# Serving a setup script

`HandleSetup` of `handlers.go`. The script that a request gets does no more than its template,
whatever the request asks for: the values in it were checked, or made by the server.
-/

namespace Patchli.Setup

open GoString Auth Chars

/-- What is read of a request: two parameters of its query, and what the base URL depends on. -/
structure SetupRequest where
  group : GoString
  osType : GoString
  conn : Proxy.Request

inductive SetupResponse
  | error (status : ℕ) (message : GoString)
  | script (text : GoString)
  deriving DecidableEq

/-- The switch over the operating system. -/
def generateScript (osType group ts nonce sig url : GoString) : GoString :=
  if osType = ascii "windows" then generateWindowsScript group ts nonce sig url
  else if osType = ascii "alpine" then generateAlpineScript group ts nonce sig url
  else generateLinuxScript group ts nonce sig url

/-- `bytes` are random, and the clock of the server has that offset. -/
def handleSetup (hmac : Hmac) (env : Proxy.Env) (offset : ℤ) (now : Time) (bytes : GoString)
    (r : SetupRequest) : SetupResponse :=
  let group := if r.group = [] then ascii "default" else r.group
  if !isValidGroupName group then .error 400 (ascii "Invalid group name")
  else
    let osType := if r.osType = [] then ascii "linux" else r.osType
    match Proxy.resolveBaseURL env r.conn with
    | .error _ => .error 500 (ascii "Invalid server configuration")
    | .ok baseURL =>
      let timestamp := Rfc3339.format offset now
      let nonce := newRegistrationNonce bytes
      let signature := generateRegistrationSignature hmac group timestamp nonce
      .script (generateScript osType group timestamp nonce signature baseURL)

/-! ### The base URL -/

/-- An agent reaches the URL over TLS, or does not leave its host. -/
def Secure (url : GoString) : Prop :=
  ∃ u, Url.parse url = some u ∧ u.host ≠ [] ∧
    (u.scheme = ascii "https" ∨
      u.scheme = ascii "http" ∧ Proxy.isLoopbackHost u.hostname = true)

/-- The configured URL, or one made of the request. -/
def candidate (env : Proxy.Env) (r : Proxy.Request) : GoString :=
  if env.baseURL = [] then Proxy.scheme env r ++ ascii "://" ++ r.host else env.baseURL

theorem resolveBaseURL_eq_ok_iff {env : Proxy.Env} {r : Proxy.Request} {url : GoString} :
    Proxy.resolveBaseURL env r = .ok url ↔
      (env.baseURL = [] → Proxy.validHost r.host = true) ∧ url = candidate env r ∧
        Secure (candidate env r) := by
  have hdiffer : ascii "http" ≠ ascii "https" := by decide
  unfold Proxy.resolveBaseURL Secure
  by_cases hhost : env.baseURL = [] ∧ !Proxy.validHost r.host
  · rw [if_pos hhost]
    simp_all
  · rw [if_neg hhost]
    have hhost : env.baseURL = [] → Proxy.validHost r.host = true := by simpa using hhost
    dsimp only
    rw [show (if env.baseURL = [] then Proxy.scheme env r ++ ascii "://" ++ r.host
      else env.baseURL) = candidate env r from rfl]
    cases hparse : Url.parse (candidate env r) with
    | none => simp
    | some u =>
      have hsecure : (∃ v, some u = some v ∧ v.host ≠ [] ∧ (v.scheme = ascii "https" ∨
          v.scheme = ascii "http" ∧ Proxy.isLoopbackHost v.hostname = true)) ↔
          ¬(u.scheme ≠ ascii "http" ∧ u.scheme ≠ ascii "https" ∨ u.host = []) ∧
            ¬(u.scheme = ascii "http" ∧ !Proxy.isLoopbackHost u.hostname) := by
        by_cases hs : u.scheme = ascii "http"
        · simp [hs, hdiffer]
        · simp [hs, and_comm]
      rw [hsecure]
      dsimp only
      split_ifs with hscheme hloopback
      · simp [hscheme]
      · simp [hloopback]
      · simp only [Except.ok.injEq, hscheme, hloopback, not_false_eq_true, and_true]
        exact ⟨fun h => ⟨hhost, h.symm⟩, fun h => h.2.symm⟩

/-! ### Values without surprises -/

def Graphic (s : GoString) : Prop := ∀ b ∈ s, 0x20 < b ∧ b < 0x7F

theorem Graphic.append {s t : GoString} (hs : Graphic s) (ht : Graphic t) : Graphic (s ++ t) :=
  fun b hb => (List.mem_append.mp hb).elim (hs b) (ht b)

theorem Graphic.nul_not_mem {s : GoString} (hs : Graphic s) : 0 ∉ s :=
  fun h => absurd (hs 0 h).1 (by decide)

theorem graphic_of_isValidGroupName {group : GoString} (h : isValidGroupName group = true) :
    Graphic group := by
  simp only [isValidGroupName, Bool.and_eq_true, List.all_eq_true] at h
  intro b hb
  have hclass := h.2 b hb
  grind

theorem graphic_hexEncode (bytes : GoString) : Graphic bytes.hexEncode := by
  have hdigit (n : ℕ) (hn : n < 16) : 0x20 < hexDigit n ∧ hexDigit n < 0x7F := by
    interval_cases n <;> decide
  induction bytes with
  | nil => exact fun b hb => absurd hb List.not_mem_nil
  | cons c bytes ih =>
    have hc := c.toNat_lt
    intro b hb
    rcases List.mem_cons.mp hb with rfl | hb
    · exact hdigit _ (by omega)
    rcases List.mem_cons.mp hb with rfl | hb
    · exact hdigit _ (by omega)
    · exact ih b hb

theorem graphic_format (offset : ℤ) (t : Time) : Graphic (Rfc3339.format offset t) := by
  intro b hb
  rcases Rfc3339.format_bytes offset t b hb with hdigit | hmem
  · simp only [Decimal.isDigit, Bool.and_eq_true, decide_eq_true_eq] at hdigit
    grind
  · have hall : ∀ b ∈ ascii "+-:TZ", 0x20 < b ∧ b < 0x7F := by decide +kernel
    exact hall b hmem

theorem graphic_validPort {port : GoString} (h : Proxy.validPort port = true) : Graphic port := by
  cases port with
  | nil => exact fun b hb => absurd hb List.not_mem_nil
  | cons c port =>
    simp only [Proxy.validPort, Bool.and_eq_true, decide_eq_true_eq, List.all_eq_true] at h
    obtain ⟨⟨rfl, hdigits⟩, -⟩ := h
    refine List.forall_mem_cons.mpr ⟨by decide, fun b hb => ?_⟩
    have hdigit := hdigits b hb
    simp only [Decimal.isDigit, Bool.and_eq_true, decide_eq_true_eq] at hdigit
    grind

theorem graphic_takeWhile {p : UInt8 → Bool} (hp : ∀ b, p b = true → 0x20 < b ∧ b < 0x7F)
    (s : GoString) : Graphic (s.takeWhile p) :=
  fun b hb => hp b (List.mem_takeWhile_imp hb)

theorem graphic_isAddrByte (b : UInt8) (hb : NetIP.isAddrByte b = true) : 0x20 < b ∧ b < 0x7F := by
  simp only [NetIP.isAddrByte, NetIP.isHex, Decimal.isDigit, Bool.or_eq_true, Bool.and_eq_true,
    decide_eq_true_eq] at hb
  grind

theorem graphic_validHost {host : GoString} (h : Proxy.validHost host = true) : Graphic host := by
  unfold Proxy.validHost at h
  dsimp only at h
  split at h
  · rename_i hbracket
    obtain ⟨rest, rfl⟩ : ∃ rest, host = 0x5B :: rest := List.head?_eq_some_iff.mp hbracket
    simp only [List.tail_cons, Bool.and_eq_true] at h
    have hsplit := List.takeWhile_append_dropWhile (p := NetIP.isAddrByte) (l := rest)
    have hdrop : Graphic (rest.dropWhile NetIP.isAddrByte) := by
      cases hport : rest.dropWhile NetIP.isAddrByte with
      | nil => exact fun b hb => absurd hb List.not_mem_nil
      | cons c port =>
        simp only [hport, Bool.and_eq_true, decide_eq_true_eq] at h
        obtain ⟨-, rfl, hvalid⟩ := h
        exact List.forall_mem_cons.mpr ⟨by decide, graphic_validPort hvalid⟩
    rw [← hsplit]
    exact List.forall_mem_cons.mpr
      ⟨by decide, (graphic_takeWhile graphic_isAddrByte rest).append hdrop⟩
  · simp only [Bool.and_eq_true] at h
    have hname (b : UInt8) (hb : (Url.isLetter b || Decimal.isDigit b || b = 0x2E || b = 0x2D) = true) :
        0x20 < b ∧ b < 0x7F := by
      simp only [Url.isLetter, Decimal.isDigit, Bool.or_eq_true, Bool.and_eq_true,
        decide_eq_true_eq] at hb
      grind
    have hgraphic := (graphic_takeWhile hname host).append (graphic_validPort h.2)
    rwa [List.takeWhile_append_dropWhile] at hgraphic

theorem graphic_candidate {env : Proxy.Env} {r : Proxy.Request} (henv : env.baseURL = [])
    (hhost : Proxy.validHost r.host = true) : Graphic (candidate env r) := by
  have hscheme : Graphic (Proxy.scheme env r) := by
    have hboth : Graphic (ascii "https") ∧ Graphic (ascii "http") := by
      constructor <;> unfold Graphic <;> decide +kernel
    unfold Proxy.scheme
    split
    · split
      · exact hboth.1
      · exact hboth.2
    · split
      · exact hboth.1
      · exact hboth.2
  have hslashes : Graphic (ascii "://") := by
    unfold Graphic
    decide +kernel
  rw [candidate, if_pos henv]
  exact (hscheme.append hslashes).append (graphic_validHost hhost)

/-- Bytes as characters. -/
def toChars (s : GoString) : List Char := s.map fun b => Char.ofNat b.toNat

theorem toNat_toChar {b : UInt8} (hb : b < 0x7F) : (Char.ofNat b.toNat).toNat = b.toNat := by
  have hlt : b.toNat < 0x7F := hb
  have hvalid : b.toNat.isValidChar := Or.inl (by omega)
  rw [Char.ofNat, dif_pos hvalid]
  rfl

theorem encode_toChars {s : GoString} (hs : Graphic s) : encode (toChars s) = s := by
  have hascii : isAscii (toChars s) = true := by
    simp only [isAscii, toChars, List.all_map, List.all_eq_true, Function.comp_apply,
      decide_eq_true_eq]
    intro b hb
    have hlt : b.toNat < 0x7F := (hs b hb).2
    rw [toNat_toChar (hs b hb).2]
    omega
  rw [encode_map hascii, toChars, List.map_map]
  refine (List.map_congr_left fun b hb => ?_).trans (List.map_id s)
  rw [Function.comp_apply, toNat_toChar (hs b hb).2]
  exact UInt8.ofNat_toNat

theorem not_smart_toChars {s : GoString} (hs : Graphic s) :
    ∀ c ∈ toChars s, PowerShell.isSmartQuote c = false := by
  intro c hc
  obtain ⟨b, hb, rfl⟩ := List.mem_map.mp hc
  have hlt : b.toNat < 0x7F := (hs b hb).2
  have hnat := toNat_toChar (hs b hb).2
  simp only [PowerShell.isSmartQuote, hnat]
  simp
  omega

/-! ### What a request gets -/

/-- A script with the values of a grant and a URL. -/
structure Served (hmac : Hmac) (osType : GoString) (g : Grant) (url text : GoString) : Prop where
  /-- A POSIX shell makes the assignments and starts the programs of the template. -/
  linux : osType ≠ ascii "windows" → osType ≠ ascii "alpine" → Shell.run text =
    some (assigned g.group g.timestamp g.nonce
      (generateRegistrationSignature hmac g.group g.timestamp g.nonce) url,
      linuxInvocations g.group url)
  alpine : osType = ascii "alpine" → Shell.run text =
    some (assigned g.group g.timestamp g.nonce
      (generateRegistrationSignature hmac g.group g.timestamp g.nonce) url,
      alpineInvocations g.group url)
  /-- PowerShell reads the template, if no quote of another kind is in the URL. -/
  windows : osType = ascii "windows" → ∀ u : List Char, url = encode u →
    (readTokens text = some (scriptTokens (toChars g.group) (toChars g.timestamp)
        (toChars g.nonce)
        (toChars (generateRegistrationSignature hmac g.group g.timestamp g.nonce)) u) ↔
      ∀ c ∈ u, PowerShell.isSmartQuote c = false)

/-- The texts of a grant and of its signature. -/
structure GraphicGrant (hmac : Hmac) (g : Grant) : Prop where
  group : Graphic g.group
  timestamp : Graphic g.timestamp
  nonce : Graphic g.nonce
  signature : Graphic (generateRegistrationSignature hmac g.group g.timestamp g.nonce)

section

variable {hmac : Hmac} {env : Proxy.Env} {offset : ℤ} {now : Time} {bytes : GoString}
  {r : SetupRequest} {g : Grant}

theorem graphicGrant_setupGrant (hmac : Hmac) (h : setupGrant offset now bytes r.group = some g) :
    GraphicGrant hmac g := by
  simp only [setupGrant, Option.ite_none_right_eq_some, Option.some.injEq] at h
  obtain ⟨hvalid, rfl⟩ := h
  exact ⟨graphic_of_isValidGroupName hvalid, graphic_format offset now, graphic_hexEncode bytes,
    graphic_hexEncode _⟩

theorem served_of_graphic {url osType : GoString} (hg : GraphicGrant hmac g) (hurl : 0 ∉ url) :
    Served hmac osType g url
      (generateScript osType g.group g.timestamp g.nonce
        (generateRegistrationSignature hmac g.group g.timestamp g.nonce) url) := by
  have hvalues : ∀ v ∈ [g.group, g.timestamp, g.nonce,
      generateRegistrationSignature hmac g.group g.timestamp g.nonce, url], 0 ∉ v := by
    simp only [List.forall_mem_cons]
    exact ⟨hg.group.nul_not_mem, hg.timestamp.nul_not_mem, hg.nonce.nul_not_mem,
      hg.signature.nul_not_mem, hurl, List.forall_mem_nil _⟩
  refine ⟨?_, ?_, ?_⟩
  · intro hwindows halpine
    rw [generateScript, if_neg hwindows, if_neg halpine]
    exact run_linux hvalues
  · intro halpine
    have hwindows : osType ≠ ascii "windows" := by
      rw [halpine]
      decide
    rw [generateScript, if_neg hwindows, if_pos halpine]
    exact run_alpine hvalues
  · intro hwindows u hu
    have hscript := generateWindowsScript_encode (toChars g.group) (toChars g.timestamp)
      (toChars g.nonce)
      (toChars (generateRegistrationSignature hmac g.group g.timestamp g.nonce)) u
    rw [encode_toChars hg.group, encode_toChars hg.timestamp, encode_toChars hg.nonce,
      encode_toChars hg.signature] at hscript
    rw [generateScript, if_pos hwindows, hu, hscript, readTokens_encode, tokens_script_iff]
    simp only [List.forall_mem_cons]
    exact ⟨fun h => h.2.2.2.2.1, fun h => ⟨not_smart_toChars hg.group,
      not_smart_toChars hg.timestamp, not_smart_toChars hg.nonce, not_smart_toChars hg.signature,
      h, List.forall_mem_nil _⟩⟩

/-- The system that a request does not name is Linux. -/
theorem handleSetup_eq : handleSetup hmac env offset now bytes r =
    match setupGrant offset now bytes r.group with
    | none => .error 400 (ascii "Invalid group name")
    | some g =>
      match Proxy.resolveBaseURL env r.conn with
      | .error _ => .error 500 (ascii "Invalid server configuration")
      | .ok url => .script (generateScript r.osType g.group g.timestamp g.nonce
          (generateRegistrationSignature hmac g.group g.timestamp g.nonce) url) := by
  have hdefault (group ts nonce sig url : GoString) :
      generateScript (if r.osType = [] then ascii "linux" else r.osType) group ts nonce sig url =
        generateScript r.osType group ts nonce sig url := by
    by_cases hos : r.osType = []
    · have hlinux : ascii "linux" ≠ ascii "windows" ∧ ascii "linux" ≠ ascii "alpine" := by decide
      have hnil : ([] : GoString) ≠ ascii "windows" ∧ ([] : GoString) ≠ ascii "alpine" := by decide
      rw [if_pos hos, hos]
      simp only [generateScript, if_neg hlinux.1, if_neg hlinux.2, if_neg hnil.1, if_neg hnil.2]
    · rw [if_neg hos]
  unfold handleSetup setupGrant
  dsimp only
  simp only [hdefault]
  by_cases hvalid : isValidGroupName (if r.group = [] then ascii "default" else r.group) = true
  · rw [if_pos hvalid, hvalid]
    rfl
  · rw [if_neg hvalid, Bool.eq_false_iff.mpr hvalid]
    rfl

variable (hmac env offset now bytes r) in
/-- A request gets a script if and only if the group that it names is valid, and the host too
where no URL is configured, and agents reach the URL safely. The script is read as its
template with the values of the grant, and none of them has a blank or a control
character; neither has the URL if it is made of the request. -/
theorem setup_script_served (hbase : 0 ∉ env.baseURL) :
    ((∃ text, handleSetup hmac env offset now bytes r = .script text) ↔
      (setupGrant offset now bytes r.group).isSome ∧
        (env.baseURL = [] → Proxy.validHost r.conn.host = true) ∧
        Secure (candidate env r.conn)) ∧
    ∀ text, handleSetup hmac env offset now bytes r = .script text →
      ∃ g, setupGrant offset now bytes r.group = some g ∧ GraphicGrant hmac g ∧
        (env.baseURL = [] → Graphic (candidate env r.conn)) ∧
        Served hmac r.osType g (candidate env r.conn) text := by
  have hurl (hhost : env.baseURL = [] → Proxy.validHost r.conn.host = true) :
      (env.baseURL = [] → Graphic (candidate env r.conn)) ∧ 0 ∉ candidate env r.conn := by
    by_cases henv : env.baseURL = []
    · have hgraphic := graphic_candidate henv (hhost henv)
      exact ⟨fun _ => hgraphic, hgraphic.nul_not_mem⟩
    · rw [candidate, if_neg henv]
      exact ⟨fun h => absurd h henv, hbase⟩
  rw [handleSetup_eq]
  cases hgrant : setupGrant offset now bytes r.group with
  | none => simp
  | some g =>
    have hgraphic := graphicGrant_setupGrant hmac hgrant
    dsimp only
    cases hresolve : Proxy.resolveBaseURL env r.conn with
    | error e =>
      have hnot : ¬((env.baseURL = [] → Proxy.validHost r.conn.host = true) ∧
          Secure (candidate env r.conn)) := by
        rintro ⟨hhost, hsecure⟩
        have hok := resolveBaseURL_eq_ok_iff.mpr ⟨hhost, rfl, hsecure⟩
        rw [hresolve] at hok
        cases hok
      simp [hnot]
    | ok url =>
      obtain ⟨hhost, rfl, hsecure⟩ := resolveBaseURL_eq_ok_iff.mp hresolve
      refine ⟨?_, ?_⟩
      · exact iff_of_true ⟨_, rfl⟩ ⟨rfl, hhost, hsecure⟩
      · rintro text ⟨⟩
        exact ⟨g, rfl, hgraphic, (hurl hhost).1, served_of_graphic hgraphic (hurl hhost).2⟩

end

/-- A controller on the same host, without a configured URL. -/
def loopbackSetup : SetupRequest :=
  ⟨[], ascii "windows", ⟨[], [], false, ascii "[::1]:80", []⟩⟩

theorem setup_script_served_loopback :
    ∃ text, handleSetup id ⟨[], []⟩ 0 0 [1] loopbackSetup = .script text ∧
      ∃ g, Served id (ascii "windows") g (ascii "http://[::1]:80") text := by
  have hresolve : Proxy.resolveBaseURL ⟨[], []⟩ loopbackSetup.conn =
      .ok (ascii "http://[::1]:80") := by
    decide +kernel
  obtain ⟨hhost, hurl, hsecure⟩ := resolveBaseURL_eq_ok_iff.mp hresolve
  obtain ⟨hserved, hscript⟩ :=
    setup_script_served id ⟨[], []⟩ 0 0 [1] loopbackSetup List.not_mem_nil
  obtain ⟨text, htext⟩ := hserved.mpr ⟨by decide +kernel, hhost, hsecure⟩
  obtain ⟨g, -, -, -, h⟩ := hscript text htext
  rw [hurl]
  exact ⟨text, htext, g, h⟩

end Patchli.Setup
