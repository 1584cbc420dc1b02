import Patchli.Command.Sign

/-!
# Commands on the wire

The text that `SendCommand` writes and what the agent decodes from a text. A raw
payload is kept as the value that it encodes.
-/

namespace Patchli.Wire

open Json Decimal Utf8

/-! ### Encoding -/

/-- A field with the option `omitempty`. -/
def omitEmpty (name : GoString) (isEmpty : Bool) (v : Value) : List (GoString × Value) :=
  if isEmpty then [] else [(name, v)]

def omitEmptyString (name s : GoString) : List (GoString × Value) :=
  omitEmpty name s.isEmpty (.string s)

/-- The fields of `CommandPayload`, which both sides declare alike. -/
def commandFields (cmd : CommandPayload) : List (GoString × Value) :=
  let pkgs := cmd.packages.getD []
  [(ascii "id", .string cmd.id), (ascii "action", .string cmd.action)] ++
    (omitEmpty (ascii "packages") pkgs.isEmpty (.array (pkgs.map .string)) ++
    (omitEmptyString (ascii "pre_patch_script") cmd.prePatchScript ++
    (omitEmptyString (ascii "post_patch_script") cmd.postPatchScript ++
    (omitEmptyString (ascii "health_check_command") cmd.healthCheckCommand ++
    (omitEmptyString (ascii "node_id") cmd.nodeID ++
    (omitEmpty (ascii "expires_at") (cmd.expiresAt = 0) (.number (formatInt cmd.expiresAt.toInt)) ++
    omitEmptyString (ascii "signature") cmd.signature))))))

/-- The struct that `SendCommand` hands to `WriteJSON`. -/
def envelope (cmd : CommandPayload) : Value := .object [
  (ascii "type", .string (ascii "command")),
  (ascii "payload", .object (commandFields cmd))]

/-- `conn.WriteJSON`. -/
def writeJSON (v : Value) : GoString := render v ++ [0x0A]

/-! ### Decoding -/

/-- Null leaves a string as it is. -/
def decodeString (old : GoString) : Value → Option GoString
  | .string s => some s
  | .null => some old
  | _ => none

def decodeInt64 (old : Int64) : Value → Option Int64
  | .number text => parseInt64 text
  | .null => some old
  | _ => none

/-- The elements of a slice, over the ones that its array already has. -/
def decodeStrings : List GoString → List Value → Option (List GoString)
  | _, [] => some []
  | old, v :: vs =>
    (decodeString (old.headD []) v).bind fun s =>
      (decodeStrings old.tail vs).map fun ss => s :: ss

/-- Decode the members of an object one by one; null changes nothing. -/
def decodeStruct {α : Type} (set : α → GoString → Value → Option α) (a : α) : Value → Option α
  | .object fs => fs.foldlM (fun a f => set a f.1 f.2) a
  | .null => some a
  | _ => none

/-- `CommandPayload` and the array behind its packages. -/
structure Decoding where
  cmd : CommandPayload
  backing : List GoString

def setPackages (d : Decoding) : Value → Option Decoding
  | .array [] => some { cmd := { d.cmd with packages := some [] }, backing := [] }
  | .array vs => (decodeStrings d.backing vs).map fun ss =>
      { cmd := { d.cmd with packages := some ss }, backing := ss ++ d.backing.drop ss.length }
  | .null => some { cmd := { d.cmd with packages := none }, backing := [] }
  | _ => none

/-- The setter of a text field. -/
def setString (get : CommandPayload → GoString)
    (put : CommandPayload → GoString → CommandPayload) (d : Decoding) (v : Value) :
    Option Decoding :=
  (decodeString (get d.cmd) v).map fun s => { d with cmd := put d.cmd s }

/-- A key names a field when they are equal up to case. -/
def set (d : Decoding) (key : GoString) (v : Value) : Option Decoding :=
  if key.equalFold (ascii "id") then
    setString (·.id) (fun cmd s => { cmd with id := s }) d v
  else if key.equalFold (ascii "action") then
    setString (·.action) (fun cmd s => { cmd with action := s }) d v
  else if key.equalFold (ascii "packages") then setPackages d v
  else if key.equalFold (ascii "pre_patch_script") then
    setString (·.prePatchScript) (fun cmd s => { cmd with prePatchScript := s }) d v
  else if key.equalFold (ascii "post_patch_script") then
    setString (·.postPatchScript) (fun cmd s => { cmd with postPatchScript := s }) d v
  else if key.equalFold (ascii "health_check_command") then
    setString (·.healthCheckCommand) (fun cmd s => { cmd with healthCheckCommand := s }) d v
  else if key.equalFold (ascii "node_id") then
    setString (·.nodeID) (fun cmd s => { cmd with nodeID := s }) d v
  else if key.equalFold (ascii "expires_at") then
    (decodeInt64 d.cmd.expiresAt v).map fun e => { d with cmd := { d.cmd with expiresAt := e } }
  else if key.equalFold (ascii "signature") then
    setString (·.signature) (fun cmd s => { cmd with signature := s }) d v
  else some d

def emptyCommand : CommandPayload := ⟨[], [], none, [], [], [], [], 0, []⟩

/-- A value decoded into a new `CommandPayload`. -/
def decodeCommand (v : Value) : Option CommandPayload :=
  (decodeStruct set ⟨emptyCommand, []⟩ v).map (·.cmd)

structure WSMessage where
  type : GoString
  payload : Option Value

def setMessage (m : WSMessage) (key : GoString) (v : Value) : Option WSMessage :=
  if key.equalFold (ascii "type") then
    (decodeString m.type v).map fun s => { m with type := s }
  else if key.equalFold (ascii "payload") then some { m with payload := some v }
  else some m

/-- `conn.ReadJSON` into a new `WSMessage`. -/
def readJSON (text : GoString) : Option WSMessage :=
  (parseFirst text).bind (decodeStruct setMessage ⟨[], none⟩)

/-- One message to the agent: `none` when it cannot be read, `some none` when it holds
no command. -/
def receive (text : GoString) : Option (Option CommandPayload) :=
  (readJSON text).map fun wsMsg =>
    if wsMsg.type = ascii "command" then wsMsg.payload.bind decodeCommand else none

/-! ### Decoding what was encoded -/

/-- What arrives of a command: text without the bytes that encode no character, and
no slice in place of an empty one. -/
def delivered (cmd : CommandPayload) : CommandPayload :=
  let pkgs := cmd.packages.getD []
  { id := toValid cmd.id
    action := toValid cmd.action
    packages := if pkgs.isEmpty then none else some (pkgs.map toValid)
    prePatchScript := toValid cmd.prePatchScript
    postPatchScript := toValid cmd.postPatchScript
    healthCheckCommand := toValid cmd.healthCheckCommand
    nodeID := toValid cmd.nodeID
    expiresAt := cmd.expiresAt
    signature := toValid cmd.signature }

theorem decodeStrings_strings (old ss : List GoString) :
    decodeStrings old (ss.map .string) = some ss := by
  induction ss generalizing old with
  | nil => rfl
  | cons s ss ih => simp [decodeStrings, decodeString, ih]

/-- Decoding the encoded members leads from one state to another. -/
def Decodes (d : Decoding) (fs : List (GoString × Value)) (t : Decoding) : Prop :=
  (decodedMembers fs).foldlM (fun d f => set d f.1 f.2) d = some t

theorem Decodes.append {d t u : Decoding} {fs gs : List (GoString × Value)}
    (hfs : Decodes d fs t) (hgs : Decodes t gs u) : Decodes d (fs ++ gs) u := by
  unfold Decodes at *
  rw [decodedMembers_append, List.foldlM_append, hfs]
  exact hgs

theorem decodes_one {d t : Decoding} {name : GoString} {v : Value} (hname : toValid name = name)
    (hset : set d name (decoded v) = some t) : Decodes d [(name, v)] t := by
  simp [Decodes, decodedMembers, hname, hset]

/-- An omitted field keeps its zero value. -/
theorem decodes_omitEmpty {d t : Decoding} {name : GoString} {isEmpty : Bool} {v : Value}
    (hname : toValid name = name) (hskip : isEmpty = true → t = d)
    (hset : isEmpty = false → set d name (decoded v) = some t) :
    Decodes d (omitEmpty name isEmpty v) t := by
  cases isEmpty with
  | true =>
    rw [hskip rfl]
    rfl
  | false => exact decodes_one hname (hset rfl)

theorem decodes_string (get : CommandPayload → GoString)
    (put : CommandPayload → GoString → CommandPayload) {d : Decoding} {name : GoString}
    (hname : toValid name = name) (hset : ∀ v, set d name v = setString get put d v)
    (hzero : put d.cmd [] = d.cmd) (s : GoString) :
    Decodes d (omitEmptyString name s) { d with cmd := put d.cmd (toValid s) } := by
  apply decodes_omitEmpty hname
  · intro hempty
    rw [List.isEmpty_iff.mp hempty]
    change { d with cmd := put d.cmd [] } = d
    rw [hzero]
  · intro _
    rw [hset]
    rfl

theorem decodes_packages (id action : GoString) (pkgs : List GoString) :
    Decodes ⟨⟨id, action, none, [], [], [], [], 0, []⟩, []⟩
      (omitEmpty (ascii "packages") pkgs.isEmpty (.array (pkgs.map .string)))
      ⟨⟨id, action, if pkgs.isEmpty then none else some (pkgs.map toValid), [], [], [], [], 0, []⟩,
        pkgs.map toValid⟩ := by
  apply decodes_omitEmpty (by decide)
  · intro hempty
    simp [List.isEmpty_iff.mp hempty]
  · intro hempty
    cases pkgs with
    | nil => cases hempty
    | cons p pkgs =>
      have hset (d : Decoding) (v : Value) : set d (ascii "packages") v = setPackages d v := rfl
      have hstrings := decodeStrings_strings [] ((p :: pkgs).map toValid)
      simp only [List.map_cons, List.map_map] at hstrings
      simp [hset, setPackages, decoded, decodedElements, decodedElements_strings, hstrings]

theorem decodeCommand_commandFields (cmd : CommandPayload) :
    decodeCommand (decoded (.object (commandFields cmd))) = some (delivered cmd) := by
  have hfields : Decodes ⟨emptyCommand, []⟩ (commandFields cmd)
      ⟨delivered cmd, (cmd.packages.getD []).map toValid⟩ := by
    have hid : Decodes ⟨emptyCommand, []⟩ [(ascii "id", .string cmd.id)]
        ⟨{ emptyCommand with id := toValid cmd.id }, []⟩ := decodes_one (by decide) rfl
    have haction : Decodes ⟨{ emptyCommand with id := toValid cmd.id }, []⟩
        [(ascii "action", .string cmd.action)]
        ⟨{ emptyCommand with id := toValid cmd.id, action := toValid cmd.action }, []⟩ :=
      decodes_one (by decide) rfl
    have hexpires (d : Decoding) (hd : d.cmd.expiresAt = 0) : Decodes d
        (omitEmpty (ascii "expires_at") (cmd.expiresAt = 0)
          (.number (formatInt cmd.expiresAt.toInt)))
        { d with cmd := { d.cmd with expiresAt := cmd.expiresAt } } := by
      apply decodes_omitEmpty (by decide)
      · intro hzero
        rw [of_decide_eq_true hzero, ← hd]
      · intro _
        have hset (v : Value) : set d (ascii "expires_at") v = (decodeInt64 d.cmd.expiresAt v).map
            fun e => { d with cmd := { d.cmd with expiresAt := e } } := rfl
        simp [hset, decoded, decodeInt64, parseInt64_formatInt]
    refine (hid.append haction).append ((decodes_packages _ _ _).append ?_)
    refine (decodes_string (·.prePatchScript) (fun cmd s => { cmd with prePatchScript := s })
      (by decide) (fun _ => rfl) rfl cmd.prePatchScript).append ?_
    refine (decodes_string (·.postPatchScript) (fun cmd s => { cmd with postPatchScript := s })
      (by decide) (fun _ => rfl) rfl cmd.postPatchScript).append ?_
    refine (decodes_string (·.healthCheckCommand)
      (fun cmd s => { cmd with healthCheckCommand := s })
      (by decide) (fun _ => rfl) rfl cmd.healthCheckCommand).append ?_
    refine (decodes_string (·.nodeID) (fun cmd s => { cmd with nodeID := s })
      (by decide) (fun _ => rfl) rfl cmd.nodeID).append ?_
    refine (hexpires _ rfl).append ?_
    exact decodes_string (·.signature) (fun cmd s => { cmd with signature := s })
      (by decide) (fun _ => rfl) rfl cmd.signature
  unfold Decodes at hfields
  simp only [decodeCommand, decoded, decodeStruct, hfields, Option.map_some]

theorem integral_omitEmpty {name : GoString} {isEmpty : Bool} {v : Value} (hv : Integral v) :
    IntegralMembers (omitEmpty name isEmpty v) := by
  cases isEmpty with
  | true => trivial
  | false => exact ⟨hv, trivial⟩

theorem integral_envelope (cmd : CommandPayload) : Integral (envelope cmd) := by
  have hstring (name s : GoString) : IntegralMembers (omitEmptyString name s) :=
    integral_omitEmpty trivial
  have hfirst : IntegralMembers [(ascii "id", .string cmd.id),
      (ascii "action", .string cmd.action)] := ⟨trivial, trivial, trivial⟩
  have hpackages : Integral (.array ((cmd.packages.getD []).map .string)) := integral_strings _
  have hexpires : Integral (.number (formatInt cmd.expiresAt.toInt)) := ⟨_, rfl⟩
  have hfields : IntegralMembers (commandFields cmd) := by
    apply integralMembers_append hfirst
    apply integralMembers_append (integral_omitEmpty hpackages)
    apply integralMembers_append (hstring _ _)
    apply integralMembers_append (hstring _ _)
    apply integralMembers_append (hstring _ _)
    apply integralMembers_append (hstring _ _)
    exact integralMembers_append (integral_omitEmpty hexpires) (hstring _ _)
  exact ⟨trivial, hfields, trivial⟩

theorem receive_envelope (cmd : CommandPayload) :
    receive (writeJSON (envelope cmd)) = some (some (delivered cmd)) := by
  have hparse : parseFirst (render (envelope cmd) ++ [0x0A]) = some (decoded (envelope cmd)) :=
    parseFirst_render (integral_envelope cmd) (delimited_cons (by decide))
  have hread : readJSON (writeJSON (envelope cmd)) =
      some ⟨ascii "command", some (decoded (.object (commandFields cmd)))⟩ := by
    unfold readJSON writeJSON
    rw [hparse]
    rfl
  unfold receive
  rw [hread, Option.map_some, if_pos rfl, Option.bind_some, decodeCommand_commandFields]

/-! ### Decoded text is valid -/

theorem decodeStruct_invariant {α : Type} {set : α → GoString → Value → Option α} {I : α → Prop}
    (hset : ∀ a key v t, I a → decoded v = v → set a key v = some t → I t) {a t : α} {v : Value}
    (ha : I a) (hv : decoded v = v) (h : decodeStruct set a v = some t) : I t := by
  unfold decodeStruct at h
  split at h
  · rename_i fs
    simp only [decoded, Value.object.injEq] at hv
    induction fs generalizing a with
    | nil =>
      cases h
      exact ha
    | cons f fs ih =>
      simp only [decodedMembers, List.cons.injEq] at hv
      simp only [List.foldlM_cons, Option.bind_eq_bind, Option.bind_eq_some_iff] at h
      obtain ⟨b, hb, h⟩ := h
      have hf : decoded f.2 = f.2 := congrArg Prod.snd hv.1
      exact ih (hset a f.1 f.2 b ha hf hb) h hv.2
  · cases h
    exact ha
  · cases h

theorem valid_decodeString {old s : GoString} {v : Value} (hold : Valid old)
    (hv : decoded v = v) (h : decodeString old v = some s) : Valid s := by
  unfold decodeString at h
  split at h
  · cases h
    simp only [decoded, Value.string.injEq] at hv
    exact valid_iff_toValid.mpr hv
  · cases h
    exact hold
  · cases h

theorem valid_decodeStrings {old ss : List GoString} {vs : List Value}
    (hold : ∀ s ∈ old, Valid s) (hvs : decodedElements vs = vs)
    (h : decodeStrings old vs = some ss) : ∀ s ∈ ss, Valid s := by
  induction vs generalizing old ss with
  | nil =>
    cases h
    exact nofun
  | cons v vs ih =>
    simp only [decodedElements, List.cons.injEq] at hvs
    obtain ⟨s, hs, h⟩ := Option.bind_eq_some_iff.mp h
    obtain ⟨ts, hts, rfl⟩ := Option.map_eq_some_iff.mp h
    have hhead : Valid (old.headD []) := by
      cases old with
      | nil => decide
      | cons o old => exact hold o (by simp)
    have htail : ∀ t ∈ old.tail, Valid t := fun t ht => hold t (List.mem_of_mem_tail ht)
    rw [List.forall_mem_cons]
    exact ⟨valid_decodeString hhead hvs.1 hs, ih htail hvs.2 hts⟩

/-- All text of a command that is being decoded is valid. -/
def Decoding.Valid (d : Decoding) : Prop :=
  Cmdsign.WellEncoded d.cmd ∧ ∀ p ∈ d.backing, Utf8.Valid p

theorem valid_setString {get : CommandPayload → GoString}
    {put : CommandPayload → GoString → CommandPayload} {d t : Decoding} {v : Value}
    (hget : Valid (get d.cmd)) (hput : ∀ s, Valid s → Cmdsign.WellEncoded (put d.cmd s))
    (hd : d.Valid) (hv : decoded v = v) (h : setString get put d v = some t) : t.Valid := by
  obtain ⟨s, hs, rfl⟩ := Option.map_eq_some_iff.mp h
  exact ⟨hput s (valid_decodeString hget hv hs), hd.2⟩

theorem valid_setPackages {d t : Decoding} {v : Value} (hd : d.Valid) (hv : decoded v = v)
    (h : setPackages d v = some t) : t.Valid := by
  obtain ⟨hcmd, hbacking⟩ := hd
  unfold setPackages at h
  split at h
  · cases h
    exact ⟨{ hcmd with packages := nofun }, nofun⟩
  · obtain ⟨ss, hss, rfl⟩ := Option.map_eq_some_iff.mp h
    simp only [decoded, Value.array.injEq] at hv
    have hvalid := valid_decodeStrings hbacking hv hss
    refine ⟨{ hcmd with packages := hvalid }, fun p hp => ?_⟩
    rcases List.mem_append.mp hp with hp | hp
    · exact hvalid p hp
    · exact hbacking p (List.mem_of_mem_drop hp)
  · cases h
    exact ⟨{ hcmd with packages := nofun }, nofun⟩
  · cases h

theorem valid_set {d t : Decoding} {key : GoString} {v : Value} (hd : d.Valid)
    (hv : decoded v = v) (h : set d key v = some t) : t.Valid := by
  have hcmd := hd.1
  unfold set at h
  split_ifs at h
  · exact valid_setString hcmd.id (fun s hs => { hcmd with id := hs }) hd hv h
  · exact valid_setString hcmd.action (fun s hs => { hcmd with action := hs }) hd hv h
  · exact valid_setPackages hd hv h
  · exact valid_setString hcmd.prePatchScript (fun s hs => { hcmd with prePatchScript := hs })
      hd hv h
  · exact valid_setString hcmd.postPatchScript (fun s hs => { hcmd with postPatchScript := hs })
      hd hv h
  · exact valid_setString hcmd.healthCheckCommand
      (fun s hs => { hcmd with healthCheckCommand := hs }) hd hv h
  · exact valid_setString hcmd.nodeID (fun s hs => { hcmd with nodeID := hs }) hd hv h
  · obtain ⟨e, -, rfl⟩ := Option.map_eq_some_iff.mp h
    exact ⟨{ hcmd with }, hd.2⟩
  · obtain ⟨s, -, rfl⟩ := Option.map_eq_some_iff.mp h
    exact ⟨{ hcmd with }, hd.2⟩
  · cases h
    exact hd

theorem wellEncoded_decodeCommand {v : Value} {cmd : CommandPayload} (hv : decoded v = v)
    (h : decodeCommand v = some cmd) : Cmdsign.WellEncoded cmd := by
  obtain ⟨d, hd, rfl⟩ := Option.map_eq_some_iff.mp h
  have hempty : Decoding.Valid ⟨emptyCommand, []⟩ := by
    have hnil : Valid [] := by decide
    exact ⟨⟨hnil, hnil, nofun, hnil, hnil, hnil, hnil⟩, nofun⟩
  exact (decodeStruct_invariant (fun d key v t hd hv ht => valid_set hd hv ht) hempty hv hd).1

/-- Whatever text arrives, the commands in it are well encoded. -/
theorem wellEncoded_receive {text : GoString} {cmd : CommandPayload}
    (h : receive text = some (some cmd)) : Cmdsign.WellEncoded cmd := by
  obtain ⟨m, hm, h⟩ := Option.map_eq_some_iff.mp h
  obtain ⟨v, hv, hm⟩ := Option.bind_eq_some_iff.mp hm
  have hpayload : ∀ p ∈ m.payload, decoded p = p := by
    apply decodeStruct_invariant (I := fun m : WSMessage => ∀ p ∈ m.payload, decoded p = p) _
      (by simp) (decoded_of_parseFirst hv) hm
    intro m key v t hm hv ht
    unfold setMessage at ht
    split_ifs at ht
    · obtain ⟨s, -, rfl⟩ := Option.map_eq_some_iff.mp ht
      exact hm
    · cases ht
      rintro _ ⟨⟩
      exact hv
    · cases ht
      exact hm
  split_ifs at h
  obtain ⟨p, hp, hcmd⟩ := Option.bind_eq_some_iff.mp h
  exact wellEncoded_decodeCommand (hpayload p hp) hcmd

end Patchli.Wire
