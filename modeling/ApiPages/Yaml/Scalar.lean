import ApiPages.Text.Base64
import ApiPages.Yaml.Reader
import ApiPages.Yaml.Scalar.Date
import ApiPages.Yaml.Scalar.Number

namespace ApiPages.Yaml

inductive ScalarType where
  | text
  | null
  | bool
  | whole
  | decimal
  | date
  | binary
  /-- The key under which a mapping takes over the pairs of others. -/
  | merge
  /-- The key of a value by default; as a value it means nothing. -/
  | default
  deriving DecidableEq, Repr

def spellings (word : String) : List String :=
  [word, word.capitalize, word.map Char.toUpper]

def trueWords : List String :=
  ["yes", "true", "on"].flatMap spellings

def falseWords : List String :=
  ["no", "false", "off"].flatMap spellings

def nullWords : List String :=
  ["", "~"] ++ spellings "null"

namespace ScalarType

def ofText (cs : List Char) : ScalarType :=
  let word := String.ofList cs
  if nullWords.contains word then .null
  else if trueWords.contains word || falseWords.contains word then .bool
  else if looksDecimal cs then .decimal
  else if looksWhole cs then .whole
  else if Date.looks cs then .date
  else if word = "<<" then .merge
  else if word = "=" then .default
  else .text

def named : List (String × ScalarType) :=
  [("str", .text), ("null", .null), ("bool", .bool), ("int", .whole), ("float", .decimal),
    ("timestamp", .date), ("binary", .binary), ("merge", .merge), ("value", .default)]

def value (type : ScalarType) (cs : List Char) : Except Fault Value :=
  match type with
  | .text => .ok (.text (String.ofList cs))
  | .null => .ok .null
  | .bool =>
    let word := (String.ofList cs).toLower
    if trueWords.contains word then .ok (.bool true)
    else if falseWords.contains word then .ok (.bool false)
    else .error (.missingKey word)
  | .whole => (wholeOf cs).map Value.int
  | .decimal => (doubleOf cs).map fun d => .number (.double d)
  | .date =>
    match Date.ofText cs with
    | some d => d.toValue
    | none => .error notYaml
  | .binary =>
    match Text.base64? cs with
    | some codes => .ok (.bytes codes)
    | none => .error notYaml
  | .merge => .error notYaml
  | .default => .error notYaml

end ScalarType

end ApiPages.Yaml
