import InstanceHierarchy.Settings.Basic
import InstanceHierarchy.Settings.Environment
import InstanceHierarchy.Settings.Error

/-!
# Loading settings

The settings are read from the standard ones, the file and the environment laid over one another.
Single values are read leniently: a number may be written as a text, a truth value counts as one or
zero, and a number or truth value may stand for a text.
-/

namespace InstanceHierarchy

/-- A reading of layered values as values of a type. -/
abbrev SettingReading (α : Type) := Setting → Except SettingsError α

namespace SettingReading

/-- The failure of a value that is not of the wanted kind. -/
def mismatch (wanted : String) (s : Setting) : Except SettingsError α :=
  .error (.mismatch (SettingsError.kind s) wanted [] s.origin)

/-- A whole number without a sign and of 64 bits. -/
def natural64 : SettingReading Nat := fun s =>
  match s with
  | .single (.int n) _ =>
      if 0 ≤ n then .ok n.toNat else mismatch "an unsigned 64 bit or less integer" s
  | .single (.bool b) _ => .ok b.toNat
  | .single (.float x) _ => .ok (x.roundToNat Limit.nat64Max)
  | .single (.str t) _ =>
      if ["true", "on", "yes"].contains (Text.lower t) then .ok 1
      else if ["false", "off", "no"].contains (Text.lower t) then .ok 0
      else
        match Text.readNatural t with
        | some n => if n ≤ Limit.nat64Max then .ok n else mismatch "an integer" s
        | none => mismatch "an integer" s
  | _ => mismatch "an integer" s

/-- A whole number without a sign and of 32 bits. -/
def natural32 : SettingReading Nat := fun s =>
  (natural64 s).bind fun n =>
    if n ≤ Limit.nat32Max then .ok n
    else
      .error (.mismatch ("64-bit unsigned integer `" ++ toString n ++ "`")
        "an unsigned 32 bit integer" [] none)

/-- A text. -/
def text : SettingReading String
  | .single (.str s) _ => .ok s
  | .single (.bool b) _ => .ok (toString b)
  | .single (.int n) _ => .ok (toString n)
  | .single (.float x) _ => .ok x.toText
  | s => mismatch "a string" s

/-- One of several constants, by its name in any case.  In a table with one field the field's name
counts. -/
def variant (choice : String) (known : List (String × α)) : SettingReading α
  | .single (.str s) _ => pick s
  | .table [(s, _)] _ => pick s
  | _ => .error (.notVariant choice)
where
  pick (s : String) : Except SettingsError α :=
    match Entries.get? (Text.lower s) known with
    | some a => .ok a
    | none => .error (.noVariant choice s)

end SettingReading

/-- A group of settings, by name or by place. -/
structure SettingGroup where
  /-- The setting with a name and a place, and the step that leads to it. -/
  find : String → Nat → Option (PathStep × Setting)
  /-- The failure for a setting that is not there. -/
  absent : String → Nat → SettingsError

namespace SettingGroup

/-- A value as a group: a table of its settings, or a list of them. -/
def of (group : String) (width : Nat) : Setting → Except SettingsError SettingGroup
  | .table fields _ =>
      .ok
        { find := fun name _ => (Entries.get? name fields).map fun s => (.key name, s)
          absent := fun name _ => .missing name }
  | .list items _ =>
      .ok
        { find := fun _ i => (items[i]?).map fun s => (.index i, s)
          absent := fun _ i => .tooFew i group width }
  | s => .error (.notGroup s group)

/-- Read a setting, if it is there. -/
def field? (g : SettingGroup) (name : String) (place : Nat) (read : SettingReading α) :
    Except SettingsError (Option α) :=
  match g.find name place with
  | none => .ok none
  | some (step, s) => ((read s).mapError (·.under step)).map some

/-- A setting that has to be there. -/
def need (g : SettingGroup) (name : String) (place : Nat) : Option α → Except SettingsError α
  | some a => .ok a
  | none => .error (g.absent name place)

end SettingGroup

open SettingReading

def BatchSettings.read : SettingReading BatchSettings := fun s => do
  let g ← SettingGroup.of "BatchConfig" 3 s
  let reader ← g.field? "reader_batch_size" 0 natural64
  let writer ← g.field? "writer_batch_size" 1 natural64
  let workers ← g.field? "max_workers" 2 natural64
  return {
    readerBatchSize := ← g.need "reader_batch_size" 0 reader
    writerBatchSize := ← g.need "writer_batch_size" 1 writer
    maxWorkers := ← g.need "max_workers" 2 workers }

def RetrySettings.read : SettingReading RetrySettings := fun s => do
  let g ← SettingGroup.of "RetryConfig" 2 s
  let attempts ← g.field? "max_attempts" 0 natural32
  let backoff ← g.field? "backoff_ms" 1 natural64
  return {
    maxAttempts := ← g.need "max_attempts" 0 attempts
    backoff := ← g.need "backoff_ms" 1 backoff }

def DemoSettings.read : SettingReading DemoSettings := fun s => do
  let g ← SettingGroup.of "DemoConfig" 3 s
  let instanceId ← g.field? "instance_id" 0 text
  let dimension ← g.field? "dimension_name" 1 text
  let codeList ← g.field? "code_list_id" 2 text
  return {
    instanceId := ← g.need "instance_id" 0 instanceId
    dimension := ← g.need "dimension_name" 1 dimension
    codeList := ← g.need "code_list_id" 2 codeList }

namespace Settings

def read : SettingReading Settings := fun s => do
  let g ← SettingGroup.of "AppConfig" 4 s
  let backend ← g.field? "backend" 0 (variant "BackendKind" BackendKind.named)
  let batch ← g.field? "batch" 1 BatchSettings.read
  let retry ← g.field? "retry" 2 RetrySettings.read
  let demo ← g.field? "demo" 3 DemoSettings.read
  return {
    backend := ← g.need "backend" 0 backend
    batch := ← g.need "batch" 1 batch
    retry := ← g.need "retry" 2 retry
    demo := ← g.need "demo" 3 demo }

/-- The file that settings are read from. -/
def fileName : String := "config.json"

/-- The entries of the file with a text. -/
def fileEntries (text : String) : Except SettingsError (List (String × Setting)) :=
  match Json.parse text with
  | .error e => .error (.syntaxError e fileName)
  | .ok v =>
      match Setting.ofJson (some fileName) v with
      | .table fields _ => .ok fields
      | s => .error (.notObject s fileName)

/-- The settings that the environment variables and the file's text, if there is a file, make
together. -/
def load (vars : Variables) (file : Option String) : Except SettingsError Settings := do
  let fromFile ←
    match file with
    | some text => fileEntries text
    | none => pure []
  let standard := Setting.ofJson none standard.toJson
  read (Setting.lay (variableEntries vars) (Setting.lay fromFile standard))

end Settings
end InstanceHierarchy
