import ApiPages.Fault
import ApiPages.Value

namespace ApiPages.Value

mutual

def hasTooLong : Value → Bool
  | .number n => n.isTooLong
  | .list items => anyTooLong items
  | .record fields => anyFieldTooLong fields
  | .mapping entries => anyEntryTooLong entries
  | .pair a b => hasTooLong a || hasTooLong b
  | .set items => anyTooLong items
  | _ => false

def anyTooLong : List Value → Bool
  | [] => false
  | v :: vs => hasTooLong v || anyTooLong vs

def anyFieldTooLong : List (String × Value) → Bool
  | [] => false
  | (_, v) :: rest => hasTooLong v || anyFieldTooLong rest

def anyEntryTooLong : List (Value × Value) → Bool
  | [] => false
  | (key, v) :: rest => hasTooLong key || hasTooLong v || anyEntryTooLong rest

end

/-- A value in running text, if all of it can be written out. -/
def written (v : Value) : Except Fault String :=
  if v.hasTooLong then .error .tooManyDigits else .ok v.display

end ApiPages.Value
