import ApiPages.Value.Field

namespace ApiPages

/-- A way to turn documentation text into HTML; `convert` only ever sees text that is not empty.
Whatever else stands in place of a text is left to `convertOther`, unless it counts as false. -/
structure Formatter where
  convert : String → String
  convertOther : Value → Except Fault String := fun _ => .error .notText

namespace Formatter

def format (f : Formatter) (text : String) : String :=
  if text = "" then "" else f.convert text

def formatValue (f : Formatter) (v : Value) : Except Fault String :=
  match v with
  | .text s => .ok (f.format s)
  | v => if v.truthy then f.convertOther v else .ok ""

/-- Formats the text under `key`, empty if there is none, as the `html` of the same record.
A fault leaves the record as it was. -/
def formatField (f : Formatter) (key : String) (v : Value) : Value × Option Fault :=
  match v with
  | .record r =>
    match Table.get? r key with
    | none => (v, some (.missingKey key))
    | some given =>
      match f.formatValue given with
      | .ok html => (.record (Table.set r "html" (.text html)), none)
      | .error fault => (v, some fault)
  | _ => (v, some .wrongShape)

def formatItems (f : Formatter) (key : String) : List Value → List Value × Option Fault
  | [] => ([], none)
  | item :: items =>
    match f.formatField key item with
    | (done, some fault) => (done :: items, some fault)
    | (done, none) =>
      let (rest, fault) := formatItems f key items
      (done :: rest, fault)

end Formatter

end ApiPages
