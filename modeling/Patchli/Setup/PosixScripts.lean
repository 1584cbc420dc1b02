import Patchli.Foundation.Shell

/-!
# Setup scripts for POSIX shells

The scripts of `handlers.go` for Linux and Alpine. They differ in what stands before and
after the assignments.
-/

namespace Patchli.Setup

open GoString Shell Transducer

def escapeBash (s : GoString) : GoString := replaceByte 0x27 (ascii "'\\''") s

/-- The lines of a template. -/
def template (lines : List String) : GoString := lines.flatMap fun l => ascii l ++ ascii "\n"

def assign (name : String) (value : GoString) : GoString :=
  ascii name ++ ascii "='" ++ escapeBash value ++ ascii "'\n"

def assignments (group ts nonce sig url : GoString) : GoString :=
  assign "GROUP" group ++ assign "TIMESTAMP" ts ++ assign "NONCE" nonce ++
    assign "SIGNATURE" sig ++ assign "SERVER_URL" url

def linuxHeader : GoString := template [
  "#!/bin/bash",
  "set -e",
  "echo \"--- Patchli Agent Setup (Linux) ---\""]

def linuxFooter : GoString := template [
  "",
  "echo \"1. Creating configuration...\"",
  "mkdir -p /etc/patchli",
  "cat <<EOF > /etc/patchli/config.yaml",
  "server_url: $SERVER_URL",
  "group: $GROUP",
  "EOF",
  "",
  "echo \"2. Installing systemd service...\"",
  "cat <<EOF > /etc/systemd/system/patchli-agent.service",
  "[Unit]",
  "Description=Patchli Patch Management Agent",
  "After=network.target",
  "",
  "[Service]",
  "ExecStart=/usr/local/bin/patchli-agent",
  "Restart=always",
  "User=root",
  "",
  "[Install]",
  "WantedBy=multi-user.target",
  "EOF",
  "",
  "# systemctl daemon-reload",
  "# systemctl enable patchli-agent",
  "# systemctl start patchli-agent",
  "",
  "echo \"SUCCESS: Patchli Agent configured for group: $GROUP\""]

def generateLinuxScript (group ts nonce sig url : GoString) : GoString :=
  linuxHeader ++ (assignments group ts nonce sig url ++ linuxFooter)

def alpineHeader : GoString := template [
  "#!/bin/sh",
  "set -e",
  "echo \"--- Patchli Agent Setup (Alpine) ---\""]

def alpineFooter : GoString := template [
  "",
  "echo \"1. Creating configuration...\"",
  "mkdir -p /etc/patchli",
  "cat <<EOF > /etc/patchli/config.yaml",
  "server_url: $SERVER_URL",
  "group: $GROUP",
  "EOF",
  "",
  "echo \"2. Installing OpenRC service...\"",
  "cat <<EOF > /etc/init.d/patchli-agent",
  "#!/sbin/openrc-run",
  "name=\"patchli-agent\"",
  "command=\"/usr/local/bin/patchli-agent\"",
  "command_background=\"yes\"",
  "pidfile=\"/run/patchli-agent.pid\"",
  "EOF",
  "chmod +x /etc/init.d/patchli-agent",
  "",
  "echo \"SUCCESS: Patchli Agent configured for group: $GROUP\""]

def generateAlpineScript (group ts nonce sig url : GoString) : GoString :=
  alpineHeader ++ (assignments group ts nonce sig url ++ alpineFooter)

/-! ### The commands of a template -/

/-- A program with plain arguments. -/
def program (args : List String) : Command := ⟨args.map fun a => plain (ascii a), none, none⟩

def echo (message : Word) : Command := ⟨[plain (ascii "echo"), message], none, none⟩

/-- `cat` with a here-document, into a file. -/
def writeFile (path : String) (text : Word) : Command :=
  ⟨[plain (ascii "cat")], some (plain (ascii path)), some text⟩

/-- The configuration of the agent. -/
def writeConfig : Command :=
  writeFile "/etc/patchli/config.yaml" (quoted (ascii "server_url: ") ++
    .param (ascii "SERVER_URL") :: quoted (ascii "\ngroup: ") ++
    .param (ascii "GROUP") :: quoted (ascii "\n"))

def success : Command :=
  echo (quoted (ascii "SUCCESS: Patchli Agent configured for group: ") ++ [.param (ascii "GROUP")])

def linuxCommands : List Command := [
  echo (quoted (ascii "1. Creating configuration...")),
  program ["mkdir", "-p", "/etc/patchli"],
  writeConfig,
  echo (quoted (ascii "2. Installing systemd service...")),
  writeFile "/etc/systemd/system/patchli-agent.service" (quoted (template [
    "[Unit]", "Description=Patchli Patch Management Agent", "After=network.target", "",
    "[Service]", "ExecStart=/usr/local/bin/patchli-agent", "Restart=always", "User=root", "",
    "[Install]", "WantedBy=multi-user.target"])),
  success]

def alpineCommands : List Command := [
  echo (quoted (ascii "1. Creating configuration...")),
  program ["mkdir", "-p", "/etc/patchli"],
  writeConfig,
  echo (quoted (ascii "2. Installing OpenRC service...")),
  writeFile "/etc/init.d/patchli-agent" (quoted (template [
    "#!/sbin/openrc-run", "name=\"patchli-agent\"", "command=\"/usr/local/bin/patchli-agent\"",
    "command_background=\"yes\"", "pidfile=\"/run/patchli-agent.pid\""])),
  program ["chmod", "+x", "/etc/init.d/patchli-agent"],
  success]

theorem read_linuxFooter : read linuxFooter = some linuxCommands := by
  decide +kernel

theorem read_alpineFooter : read alpineFooter = some alpineCommands := by
  decide +kernel

theorem feed_linuxHeader : feed step start linuxHeader = some (start, [program ["set", "-e"],
    echo (quoted (ascii "--- Patchli Agent Setup (Linux) ---"))]) := by
  decide +kernel

theorem feed_alpineHeader : feed step start alpineHeader = some (start, [program ["set", "-e"],
    echo (quoted (ascii "--- Patchli Agent Setup (Alpine) ---"))]) := by
  decide +kernel

/-! ### Running a script -/

theorem assign_eq (name : String) (value : GoString) :
    assign name value = assignmentLine (ascii name) value := by
  have hend : ascii "'\n" = ascii "'" ++ ascii "\n" := rfl
  have hstart : ascii "='" = ascii "=" ++ ascii "'" := rfl
  simp [assign, assignmentLine, quote, escapeBash, hend, hstart]

/-- What the assignments of a script leave behind. -/
def assigned (group ts nonce sig url : GoString) : Env :=
  [(ascii "GROUP", group), (ascii "TIMESTAMP", ts), (ascii "NONCE", nonce),
    (ascii "SIGNATURE", sig), (ascii "SERVER_URL", url)]

section

variable {group ts nonce sig url : GoString}

theorem read_assign {name : String} (hname : isName (ascii name) = true) {value : GoString}
    (hvalue : 0 ∉ value) (rest : GoString) :
    read (assign name value ++ rest) =
      (read rest).map (Command.assign (ascii name) value :: ·) := by
  rw [assign_eq]
  exact read_append (feed_assignmentLine hname hvalue) rest

theorem read_assignments (hvalues : ∀ v ∈ [group, ts, nonce, sig, url], 0 ∉ v) (rest : GoString) :
    read (assignments group ts nonce sig url ++ rest) =
      (read rest).map
        (((assigned group ts nonce sig url).map fun p => Command.assign p.1 p.2) ++ ·) := by
  simp only [List.forall_mem_cons] at hvalues
  obtain ⟨hgroup, hts, hnonce, hsig, hurl, -⟩ := hvalues
  simp only [assignments, List.append_assoc]
  rw [read_assign (by decide) hgroup, read_assign (by decide) hts, read_assign (by decide) hnonce,
    read_assign (by decide) hsig, read_assign (by decide) hurl]
  cases read rest <;> rfl

theorem run_template {header footer : GoString} {before after : List Command}
    (hheader : feed step start header = some (start, before)) (hfooter : read footer = some after)
    (hbefore : ∀ c ∈ before, c.isProgram = true) (hafter : ∀ c ∈ after, c.isProgram = true)
    (hvalues : ∀ v ∈ [group, ts, nonce, sig, url], 0 ∉ v) :
    run (header ++ (assignments group ts nonce sig url ++ footer)) =
      some (assigned group ts nonce sig url, before.map (Command.invocation []) ++
        after.map (Command.invocation (assigned group ts nonce sig url))) := by
  have hread : read (header ++ (assignments group ts nonce sig url ++ footer)) = some (before ++
      (((assigned group ts nonce sig url).map fun p => Command.assign p.1 p.2) ++ after)) := by
    rw [read_append hheader, read_assignments hvalues, hfooter]
    rfl
  have hnames : ∀ p ∈ assigned group ts nonce sig url, isName p.1 = true := by
    have hall : ∀ n ∈ (assigned group ts nonce sig url).map Prod.fst, isName n = true := by
      rw [show (assigned group ts nonce sig url).map Prod.fst = [ascii "GROUP", ascii "TIMESTAMP",
        ascii "NONCE", ascii "SIGNATURE", ascii "SERVER_URL"] from rfl]
      decide
    exact fun p hp => hall _ (List.mem_map_of_mem hp)
  rw [run, hread, Option.bind_some, execAll_append, execAll_programs hbefore, Option.bind_some]
  simp only [execAll_append, execAll_assignments hnames, Option.bind_some,
    execAll_programs hafter, Option.map_some, List.nil_append]

/-! ### The programs that a script starts -/

def started (args : List String) : Invocation := ⟨args.map ascii, none, none⟩

def announced (message : GoString) : Invocation := ⟨[ascii "echo", message], none, none⟩

def written (path : String) (text : GoString) : Invocation :=
  ⟨[ascii "cat"], some (ascii path), some text⟩

def config (group url : GoString) : GoString :=
  ascii "server_url: " ++ url ++ ascii "\ngroup: " ++ group ++ ascii "\n"

def linuxInvocations (group url : GoString) : List Invocation := [
  started ["set", "-e"],
  announced (ascii "--- Patchli Agent Setup (Linux) ---"),
  announced (ascii "1. Creating configuration..."),
  started ["mkdir", "-p", "/etc/patchli"],
  written "/etc/patchli/config.yaml" (config group url),
  announced (ascii "2. Installing systemd service..."),
  written "/etc/systemd/system/patchli-agent.service" (template [
    "[Unit]", "Description=Patchli Patch Management Agent", "After=network.target", "",
    "[Service]", "ExecStart=/usr/local/bin/patchli-agent", "Restart=always", "User=root", "",
    "[Install]", "WantedBy=multi-user.target"]),
  announced (ascii "SUCCESS: Patchli Agent configured for group: " ++ group)]

def alpineInvocations (group url : GoString) : List Invocation := [
  started ["set", "-e"],
  announced (ascii "--- Patchli Agent Setup (Alpine) ---"),
  announced (ascii "1. Creating configuration..."),
  started ["mkdir", "-p", "/etc/patchli"],
  written "/etc/patchli/config.yaml" (config group url),
  announced (ascii "2. Installing OpenRC service..."),
  written "/etc/init.d/patchli-agent" (template [
    "#!/sbin/openrc-run", "name=\"patchli-agent\"", "command=\"/usr/local/bin/patchli-agent\"",
    "command_background=\"yes\"", "pidfile=\"/run/patchli-agent.pid\""]),
  started ["chmod", "+x", "/etc/init.d/patchli-agent"],
  announced (ascii "SUCCESS: Patchli Agent configured for group: " ++ group)]

theorem invocation_program (env : Env) (args : List String) :
    (program args).invocation env = started args := by
  simp [program, started, Command.invocation, value_plain]

theorem invocation_echo (env : Env) (message : Word) :
    (echo message).invocation env = announced (Word.value env message) := by
  simp [echo, announced, Command.invocation, value_plain]

theorem invocation_writeFile (env : Env) (path : String) (text : Word) :
    (writeFile path text).invocation env = written path (Word.value env text) := by
  simp [writeFile, written, Command.invocation, value_plain]

theorem invocation_writeConfig :
    writeConfig.invocation (assigned group ts nonce sig url) =
      written "/etc/patchli/config.yaml" (config group url) := by
  have hgroup (w : Word) :
      Word.value (assigned group ts nonce sig url) (.param (ascii "GROUP") :: w) =
        group ++ Word.value (assigned group ts nonce sig url) w := rfl
  have hurl (w : Word) :
      Word.value (assigned group ts nonce sig url) (.param (ascii "SERVER_URL") :: w) =
        url ++ Word.value (assigned group ts nonce sig url) w := rfl
  simp [writeConfig, invocation_writeFile, value_append, value_quoted, hgroup, hurl, config]

theorem invocation_success : success.invocation (assigned group ts nonce sig url) =
    announced (ascii "SUCCESS: Patchli Agent configured for group: " ++ group) := by
  have hgroup : Word.value (assigned group ts nonce sig url) [.param (ascii "GROUP")] = group :=
    List.append_nil group
  simp [success, invocation_echo, value_append, value_quoted, hgroup]

theorem run_linux (hvalues : ∀ v ∈ [group, ts, nonce, sig, url], 0 ∉ v) :
    run (generateLinuxScript group ts nonce sig url) =
      some (assigned group ts nonce sig url, linuxInvocations group url) := by
  rw [generateLinuxScript, run_template feed_linuxHeader read_linuxFooter (by decide) (by decide)
    hvalues]
  simp only [linuxCommands, List.map_cons, List.map_nil, invocation_program, invocation_echo,
    invocation_writeFile, invocation_writeConfig, invocation_success, value_quoted]
  rfl

theorem run_alpine (hvalues : ∀ v ∈ [group, ts, nonce, sig, url], 0 ∉ v) :
    run (generateAlpineScript group ts nonce sig url) =
      some (assigned group ts nonce sig url, alpineInvocations group url) := by
  rw [generateAlpineScript, run_template feed_alpineHeader read_alpineFooter (by decide)
    (by decide) hvalues]
  simp only [alpineCommands, List.map_cons, List.map_nil, invocation_program, invocation_echo,
    invocation_writeFile, invocation_writeConfig, invocation_success, value_quoted]
  rfl

end

end Patchli.Setup
