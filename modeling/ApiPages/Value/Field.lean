import ApiPages.Fault
import ApiPages.Text.Escape
import ApiPages.Value

namespace ApiPages

def Record.required (r : Record) (key : String) : Except Fault Value :=
  match Table.get? r key with
  | some v => .ok v
  | none => .error (.missingKey key)

def Record.optional (r : Record) (key : String) : Value :=
  (Table.get? r key).getD .null

namespace Value

def required (v : Value) (key : String) : Except Fault Value :=
  match v with
  | .record r => Record.required r key
  | _ => .error .wrongShape

def optional (v : Value) (key : String) : Except Fault Value :=
  match v with
  | .record r => .ok (Record.optional r key)
  | _ => .error .notARecord

/-- A field of a value that is read as an empty record when it counts as false. -/
def optionalIn (v : Value) (key : String) : Except Fault Value :=
  if v.truthy then v.optional key else .ok .null

def ofText? : Option String → Value
  | some s => .text s
  | none => .null

def htmlOf (v : Value) : Except Fault String :=
  match v with
  | .record r => .ok (((Table.get? r "html").getD (.text "")).display)
  | _ => .error .notARecord

def escaped (v : Value) : String :=
  Text.escape v.display

end Value

end ApiPages
