import ApiPages.Text.Digit

namespace ApiPages.Text

def codeAt (cs : List Char) : Option Nat := do
  let digits ← (cs.take 4).mapM hexDigit?
  if digits.length = 4 then return digits.foldl (· * 16 + ·) 0 else none

def lowHalf : List Char → Option Nat
  | '\\' :: 'u' :: cs => (codeAt cs).filter fun low => 0xDC00 ≤ low && low < 0xE000
  | _ => none

/-- The character whose code comes next, and how long that is. Characters beyond the first plane
may be coded in two halves. -/
def codedChar (cs : List Char) : Option (Char × Nat) := do
  let code ← codeAt cs
  if 0xD800 ≤ code ∧ code < 0xDC00 then
    match lowHalf (cs.drop 4) with
    | some low => return (Char.ofNat (0x10000 + (code - 0xD800) * 0x400 + (low - 0xDC00)), 10)
    | none => return (Char.ofNat code, 4)
  else return (Char.ofNat code, 4)

end ApiPages.Text
