import ApiPages.Fault
import ApiPages.Value

namespace ApiPages

/-- What records are filed under: nearly always a text. Truth values and numbers that are equal
are one name, in whichever way they are written. -/
inductive Name where
  | null
  | text (s : String)
  | number (size : Number.Size)
  | shown (written : String)
  deriving DecidableEq, Repr

namespace Name

def ofValue : Value → Except Fault Name
  | .null => .ok .null
  | .bool b => .ok (.number (Number.int (if b then 1 else 0)).size)
  | .number n => .ok (.number n.size)
  | .text s => .ok (.text s)
  | .shown _ inside => .ok (.shown inside)
  | .list _ => .error .wrongShape
  | .record _ => .error .wrongShape
  | .mapping _ => .error .wrongShape
  | .bytes codes => .ok (.shown (Value.bytes codes).nested)
  | .pair a b =>
    if (Value.pair a b).canName then .ok (.shown (Value.pair a b).nested) else .error .wrongShape
  | .set _ => .error .wrongShape

def text? : Name → Option String
  | .text s => some s
  | _ => none

@[simp]
theorem text?_eq_some_iff {name : Name} {s : String} : name.text? = some s ↔ name = .text s := by
  cases name <;> simp [text?]

theorem eq_wrongShape_of_ofValue {v : Value} {fault : Fault} (h : ofValue v = .error fault) :
    fault = .wrongShape := by
  cases v with
  | pair a b =>
    rw [ofValue] at h
    split at h
    · cases h
    · cases h
      rfl
  | _ => cases h <;> rfl

@[simp]
theorem ofValue_text (s : String) : ofValue (.text s) = .ok (.text s) := rfl

end Name

end ApiPages
