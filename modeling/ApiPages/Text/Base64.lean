namespace ApiPages.Text

def sixBits? (c : Char) : Option Nat :=
  if 'A' ≤ c && c ≤ 'Z' then some (c.toNat - 'A'.toNat)
  else if 'a' ≤ c && c ≤ 'z' then some (c.toNat - 'a'.toNat + 26)
  else if '0' ≤ c && c ≤ '9' then some (c.toNat - '0'.toNat + 52)
  else if c = '+' then some 62
  else if c = '/' then some 63
  else none

/-- Reads on behind `place` characters of a group of four, with `left` as the bits of which no byte
has been made. Once a group is filled up with `=` the rest is left out, and what stands for no bits
is passed over. -/
def base64From (place left filled : Nat) : List Char → Option (List UInt8)
  | [] => if place = 0 then some [] else none
  | c :: cs =>
    match sixBits? c, place with
    | none, place =>
      if c = '=' && 2 ≤ place then
        if 4 ≤ place + filled + 1 then some [] else base64From place left (filled + 1) cs
      else base64From place left filled cs
    | some bits, 0 => base64From 1 bits 0 cs
    | some bits, 1 => (base64From 2 (bits % 16) 0 cs).map (.ofNat (left * 4 + bits / 16) :: ·)
    | some bits, 2 => (base64From 3 (bits % 4) 0 cs).map (.ofNat (left * 16 + bits / 4) :: ·)
    | some bits, _ => (base64From 0 0 0 cs).map (.ofNat (left * 64 + bits) :: ·)

def base64? (cs : List Char) : Option (List UInt8) :=
  if cs.all fun c => c.toNat < 128 then base64From 0 0 0 cs else none

end ApiPages.Text
