import Patchli.Foundation.Chars
import Patchli.Foundation.PowerShell
import Patchli.Setup.PosixScripts

/-!
# The setup script for Windows

`generateWindowsScript` of `handlers.go`. The apostrophe is escaped, but PowerShell has four
more single quotes.
-/

namespace Patchli.Setup

open GoString Chars Transducer

def escapePowerShell (s : GoString) : GoString := replaceByte 0x27 (ascii "''") s

/-- `$Name = '%s'` -/
def setVariable (name : String) (value : GoString) : GoString :=
  ascii "$" ++ ascii name ++ ascii " = '" ++ escapePowerShell value ++ ascii "'\n"

def windowsHeader : List String := [
  "$ErrorActionPreference = \"Stop\"",
  "Write-Host \"--- Patchli Agent Setup (Windows) ---\""]

def windowsFooter : List String := [
  "",
  "Write-Host \"1. Creating configuration...\"",
  "$ConfigDir = \"C:\\ProgramData\\Patchli\"",
  "if (!(Test-Path -Path $ConfigDir)) \x7b New-Item -ItemType Directory " ++
    "-Path $ConfigDir | Out-Null \x7d",
  "@\"",
  "server_url: $ServerUrl",
  "group: $Group",
  "\"@ | Out-File -FilePath \"$ConfigDir\\config.yaml\" -Encoding UTF8",
  "",
  "Write-Host \"SUCCESS: Patchli Agent configured for group: $Group\""]

def generateWindowsScript (group ts nonce sig url : GoString) : GoString :=
  template windowsHeader ++
    (setVariable "Group" group ++ (setVariable "Timestamp" ts ++ (setVariable "Nonce" nonce ++
      (setVariable "Signature" sig ++ (setVariable "ServerUrl" url ++ template windowsFooter)))))

/-! ### The tokens of the template -/

open PowerShell

def word (text : String) : Token := .word text.toList

def var (name : String) : Token := .var name.toList

def expandable (text : String) : Token := .expandable text.toList

def symbols (text : String) : List Token := text.toList.map Token.symbol

def headerTokens : List Token :=
  [var "ErrorActionPreference"] ++ symbols "=" ++ [expandable "Stop", .newline,
    word "Write-Host", expandable "--- Patchli Agent Setup (Windows) ---", .newline]

def footerTokens : List Token :=
  [.newline, word "Write-Host", expandable "1. Creating configuration...", .newline,
    var "ConfigDir"] ++ symbols "=" ++ [expandable "C:\\ProgramData\\Patchli", .newline,
    word "if"] ++ symbols "(!(" ++ [word "Test-Path", word "-Path", var "ConfigDir"] ++
    symbols "))\x7b" ++ [word "New-Item", word "-ItemType", word "Directory", word "-Path",
    var "ConfigDir"] ++ symbols "|" ++ [word "Out-Null"] ++ symbols "\x7d" ++ [.newline,
    .hereString "server_url: $ServerUrl\ngroup: $Group\n".toList] ++ symbols "|" ++
    [word "Out-File", word "-FilePath", expandable "$ConfigDir\\config.yaml", word "-Encoding",
    word "UTF8", .newline, .newline, word "Write-Host",
    expandable "SUCCESS: Patchli Agent configured for group: $Group", .newline, .newline]

/-- The lines of a template as characters. -/
def templateChars (lines : List String) : List Char := lines.flatMap fun l => l.toList ++ [newline]

theorem feed_header : feed step .between (templateChars windowsHeader) =
    some (.between, headerTokens) := by
  decide +kernel

theorem tokens_footer : tokens (templateChars windowsFooter) = some footerTokens := by
  decide +kernel

/-! ### Characters of the script -/

/-- PowerShell decodes the script first. -/
def readTokens (script : GoString) : Option (List Token) := (decode script).bind tokens

theorem readTokens_encode (script : List Char) : readTokens (encode script) = tokens script := by
  rw [readTokens, decode_encode, Option.bind_some]

theorem escapePowerShell_encode (s : List Char) :
    escapePowerShell (encode s) = encode (escape s) := by
  have hbyte : apostrophe.toNat.toUInt8 = 0x27 := rfl
  have hnew : encode [apostrophe, apostrophe] = ascii "''" := rfl
  rw [escapePowerShell, ← hbyte, ← hnew, replaceByte_encode (by decide)]
  rfl

theorem template_encode {lines : List String}
    (hlines : (lines.all fun l => isAscii l.toList) = true) :
    template lines = encode (templateChars lines) := by
  have hend : ascii "\n" = encode [newline] := rfl
  induction lines with
  | nil => rfl
  | cons l lines ih =>
    simp only [List.all_cons, Bool.and_eq_true] at hlines
    have hrest := ih hlines.2
    unfold template templateChars at hrest ⊢
    rw [List.flatMap_cons, List.flatMap_cons, encode_append, encode_append, encode_ascii hlines.1,
      ← hrest, hend]

/-- In front of the value. -/
def opening (name : String) : List Char := "$".toList ++ name.toList ++ " = '".toList

def lineChars (name : String) (value : List Char) : List Char :=
  opening name ++ (escape value ++ [apostrophe, newline])

theorem setVariable_encode {name : String} (hname : isAscii name.toList = true)
    (value : List Char) : setVariable name (encode value) = encode (lineChars name value) := by
  have hstart : encode "$".toList = ascii "$" := rfl
  have hequals : encode " = '".toList = ascii " = '" := rfl
  have hend : encode [apostrophe, newline] = ascii "'\n" := rfl
  simp only [setVariable, lineChars, opening, encode_append, encode_ascii hname,
    escapePowerShell_encode, hstart, hequals, hend, List.append_assoc]

def scriptChars (group ts nonce sig url : List Char) : List Char :=
  templateChars windowsHeader ++ (lineChars "Group" group ++ (lineChars "Timestamp" ts ++
    (lineChars "Nonce" nonce ++ (lineChars "Signature" sig ++ (lineChars "ServerUrl" url ++
      templateChars windowsFooter)))))

theorem generateWindowsScript_encode (group ts nonce sig url : List Char) :
    generateWindowsScript (encode group) (encode ts) (encode nonce) (encode sig) (encode url) =
      encode (scriptChars group ts nonce sig url) := by
  unfold generateWindowsScript scriptChars
  rw [template_encode (by decide +kernel), template_encode (by decide +kernel),
    setVariable_encode (by decide +kernel), setVariable_encode (by decide +kernel),
    setVariable_encode (by decide +kernel), setVariable_encode (by decide +kernel),
    setVariable_encode (by decide +kernel)]
  simp only [encode_append]

/-! ### Reading the values back -/

/-- `$Name = 'value'` -/
def lineTokens (name : String) (value : List Char) : List Token :=
  [var name] ++ symbols "=" ++ [.literal value, .newline]

/-- The tokens of the template, with the values in their places. -/
def scriptTokens (group ts nonce sig url : List Char) : List Token :=
  headerTokens ++ (lineTokens "Group" group ++ (lineTokens "Timestamp" ts ++
    (lineTokens "Nonce" nonce ++ (lineTokens "Signature" sig ++ (lineTokens "ServerUrl" url ++
      footerTokens)))))

theorem tokens_line_iff {name : String} {value rest : List Char} {ts : List Token}
    (hopening : feed step .between (opening name) =
      some (.literal [], [var name] ++ symbols "=")) :
    tokens (lineChars name value ++ rest) = some (lineTokens name value ++ ts) ↔
      (∀ c ∈ value, isSmartQuote c = false) ∧ tokens rest = some ts := by
  have htokens : lineTokens name value ++ ts =
      [var name] ++ symbols "=" ++ .literal value :: .newline :: ts := by simp [lineTokens]
  rw [htokens]
  exact tokens_literal_iff hopening

theorem tokens_script_iff (group ts nonce sig url : List Char) :
    tokens (scriptChars group ts nonce sig url) = some (scriptTokens group ts nonce sig url) ↔
      ∀ v ∈ [group, ts, nonce, sig, url], ∀ c ∈ v, isSmartQuote c = false := by
  unfold scriptChars scriptTokens
  rw [tokens_append feed_header, tokens_line_iff (by decide +kernel),
    tokens_line_iff (by decide +kernel), tokens_line_iff (by decide +kernel),
    tokens_line_iff (by decide +kernel), tokens_line_iff (by decide +kernel)]
  simp [tokens_footer]

/-- The variables that get a literal as their value. -/
def literalAssignments : List Token → List (List Char × List Char)
  | .var name :: .symbol c :: .literal value :: .newline :: ts =>
    if c.toNat = 0x3D then (name, value) :: literalAssignments ts else literalAssignments ts
  | _ :: ts => literalAssignments ts
  | [] => []

theorem literalAssignments_script (group ts nonce sig url : List Char) :
    literalAssignments (scriptTokens group ts nonce sig url) =
      [("Group".toList, group), ("Timestamp".toList, ts), ("Nonce".toList, nonce),
        ("Signature".toList, sig), ("ServerUrl".toList, url)] := by
  rfl

theorem readTokens_quoted (s : List Char) :
    readTokens (ascii "'" ++ escapePowerShell (encode s) ++ ascii "'") =
      tokens (apostrophe :: (escape s ++ [apostrophe])) := by
  have hquote : ascii "'" = encode [apostrophe] := rfl
  rw [escapePowerShell_encode, hquote, ← encode_append, ← encode_append, readTokens_encode]
  simp

/-- A quoted text is one literal with that value, and the script has the five values in the
places of its template, if and only if there is no typographic single quote among them. -/
theorem powerShell_quoting_iff (s group ts nonce sig url : List Char) :
    (readTokens (ascii "'" ++ escapePowerShell (encode s) ++ ascii "'") =
        some [.literal s, .newline] ↔
      ∀ c ∈ s, isSmartQuote c = false) ∧
    (readTokens (generateWindowsScript (encode group) (encode ts) (encode nonce) (encode sig)
        (encode url)) = some (scriptTokens group ts nonce sig url) ↔
      ∀ v ∈ [group, ts, nonce, sig, url], ∀ c ∈ v, isSmartQuote c = false) ∧
    literalAssignments (scriptTokens group ts nonce sig url) =
      [("Group".toList, group), ("Timestamp".toList, ts), ("Nonce".toList, nonce),
        ("Signature".toList, sig), ("ServerUrl".toList, url)] := by
  rw [readTokens_quoted, generateWindowsScript_encode, readTokens_encode]
  exact ⟨tokens_quoted_iff s, tokens_script_iff group ts nonce sig url,
    literalAssignments_script group ts nonce sig url⟩

/-- A base URL with a typographic apostrophe. -/
def typographicURL : List Char := "https://example.org/it\u2019s".toList

theorem not_powerShell_quoting :
    ¬((∀ s : List Char, readTokens (ascii "'" ++ escapePowerShell (encode s) ++ ascii "'") =
        some [.literal s, .newline]) ∧
      ∀ group ts nonce sig url : List Char,
        readTokens (generateWindowsScript (encode group) (encode ts) (encode nonce) (encode sig)
          (encode url)) = some (scriptTokens group ts nonce sig url)) := by
  rintro ⟨-, hscript⟩
  have hread := hscript "web".toList [] [] [] typographicURL
  rw [generateWindowsScript_encode, readTokens_encode, tokens_script_iff] at hread
  exact absurd (hread typographicURL (by simp) (Char.ofNat 0x2019) (by decide)) (by decide)

end Patchli.Setup
