import ApiPages.PathName
import ApiPages.Text.Space
import ApiPages.Value.Field
import ApiPages.Value.Written

namespace ApiPages

/-- How a run is logged. The file is a path from the directory of the settings file. -/
structure LoggingSettings where
  verbose : Bool := false
  quiet : Bool := false
  file : Option String := none

structure Settings where
  external : List String := []
  disabled : List String := []
  enabled : Option (List String) := none
  extensions : List String := ["extra"]
  logging : Option LoggingSettings := none

/-- A reader of YAML: the only value of a text, or what is wrong with it. -/
abbrev YamlReader := String → Except Fault Value

namespace Settings

def fields? (v : Value) : Option Record :=
  match v with
  | .record r => some r
  | .mapping entries =>
    some (entries.filterMap fun (key, value) =>
      match key with
      | .text s => some (s, value)
      | _ => none)
  | _ => none

/-- The fields of a section; anything else than a mapping has none. -/
def sectionOf (v : Value) : Record :=
  (fields? v).getD []

def isScalar : Value → Bool
  | .bool _ => true
  | .number _ => true
  | .text _ => true
  | _ => false

/-- What stands in a row: the items of a list, a key and its value, or bytes as numbers. -/
def itemsOf : Value → List Value
  | .list items => items
  | .pair a b => [a, b]
  | .bytes codes => codes.map fun code => .int code.toNat
  | _ => []

/-- One text, or the scalars among what stands in a row, as they are written. -/
def texts (v : Value) : Except Fault (List String) :=
  match v with
  | .text s => .ok [s]
  | v => ((itemsOf v).filter isScalar).mapM Value.written

def texts? (v : Value) : Except Fault (Option (List String)) :=
  match v with
  | .null => .ok none
  | v => some <$> texts v

def loggingOf (v : Value) : Except Fault (Option LoggingSettings) :=
  match fields? v with
  | none => .ok none
  | some r => do
    let file := Record.optional r "file"
    let path ← if file.truthy then some <$> file.written else pure none
    return some {
      verbose := (Record.optional r "verbose").truthy
      quiet := (Record.optional r "quiet").truthy
      file := path.map PathName.normalize }

def entry (r : Record) (name key : String) : Value :=
  Record.optional (sectionOf (Record.optional r name)) key

def ofRecord (r : Record) : Except Fault Settings := do
  let disabled ← texts (entry r "warnings" "disabled")
  let enabled ← texts? (entry r "tags" "enabled")
  let extensions ← texts? (entry r "markdown" "extensions")
  let logging ← loggingOf (Record.optional r "logging")
  let external ← texts (Record.optional r "external")
  return { external, disabled, enabled, extensions := extensions.getD ["extra"], logging }

/-- The settings that the value of a settings file stands for. Whatever counts as false is an
empty file. -/
def ofValue (v : Value) : Except Fault Settings :=
  match fields? v with
  | some r => ofRecord r
  | none => if v.truthy then .error .settingsNotAMapping else ofRecord []

/-- What a settings file says, read with some reader of YAML unless it is blank. -/
def parse (yaml : YamlReader) (text : String) : Except Fault Settings :=
  if Text.isBlank text.toList then ofRecord []
  else
    match yaml text with
    | .ok v => ofValue v
    | .error (.malformedYaml problem) => .error (.malformedSettings problem)
    | .error fault => .error fault

end Settings

end ApiPages
