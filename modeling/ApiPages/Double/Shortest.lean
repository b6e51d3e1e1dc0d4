import ApiPages.Double

namespace ApiPages.Double

/-- The numbers that round to a double lie between `low` and `high`, all in units of
`1 / scale`; the ends do too where the mantissa is even. -/
structure Interval where
  low : Nat
  value : Nat
  high : Nat
  scale : Nat
  closed : Bool

/-- The neighbour below is half as far where the mantissa is the least of its exponent. -/
def intervalOf (mantissa : Nat) (exponent : Int) : Interval :=
  let up := Nat.pow 2 exponent.toNat
  let below := if mantissa = Nat.pow 2 52 ∧ minExponent < exponent then 1 else 2
  { low := (4 * mantissa - below) * up
    value := 4 * mantissa * up
    high := (4 * mantissa + 2) * up
    scale := 4 * Nat.pow 2 (-exponent).toNat
    closed := mantissa % 2 == 0 }

namespace Interval

def step (i : Interval) (power : Int) : Nat :=
  i.scale * Nat.pow 10 power.toNat

def scaled (n : Nat) (power : Int) : Nat :=
  n * Nat.pow 10 (-power).toNat

def contains (i : Interval) (power : Int) (n : Nat) : Bool :=
  let x := n * i.step power
  if i.closed then scaled i.low power ≤ x && x ≤ scaled i.high power
  else scaled i.low power < x && x < scaled i.high power

/-- The multiple of `10 ^ power` that rounds to the double and is nearest to it, if one does. -/
def nearest (i : Interval) (power : Int) : Option Nat :=
  let step := i.step power
  let value := scaled i.value power
  let n := value / step
  match i.contains power n, i.contains power (n + 1) with
  | true, true =>
    let twice := 2 * (value - n * step)
    some (if twice < step then n else if step < twice then n + 1 else n + n % 2)
  | true, false => some n
  | false, true => some (n + 1)
  | false, false => none

def leadingPower (num den : Nat) : Int :=
  (digitCount num : Int) - digitCount den

def shortest (i : Interval) (power : Int) : Nat → Nat × Int
  | 0 => (0, power)
  | powers + 1 =>
    match i.nearest power with
    | some n => (n, power)
    | none => shortest i (power - 1) powers

end Interval

/-- The fewest digits that read back as the double, as a whole number and a power of ten.
Seventeen digits always do. -/
def shortest (mantissa : Nat) (exponent : Int) : Nat × Int :=
  let i := intervalOf mantissa exponent
  i.shortest (Interval.leadingPower i.value i.scale) 19

def zeros (n : Nat) : List Char :=
  List.replicate n '0'

/-- Writes the significant digits with the decimal point after the first `point` of them;
numbers from `10 ^ 16` on and below `10 ^ -4` get an exponent. -/
def layout (digits : List Char) (point : Int) : List Char :=
  if -4 < point ∧ point ≤ 16 then
    if point ≤ 0 then '0' :: '.' :: zeros (-point).toNat ++ digits
    else if digits.length ≤ point.toNat then
      digits ++ zeros (point.toNat - digits.length) ++ ['.', '0']
    else digits.take point.toNat ++ '.' :: digits.drop point.toNat
  else
    let exponent := point - 1
    let power := (Nat.repr exponent.natAbs).toList
    let fraction := if digits.length ≤ 1 then [] else '.' :: digits.drop 1
    digits.take 1 ++ fraction ++ 'e' :: (if exponent < 0 then '-' else '+') ::
      (zeros (2 - power.length) ++ power)

def displayFinite (mantissa : Nat) (exponent : Int) : List Char :=
  if mantissa = 0 then ['0', '.', '0']
  else
    let (n, power) := shortest mantissa exponent
    let digits := (Nat.repr n).toList
    layout digits (digits.length + power)

def display : Double → String
  | .finite negative mantissa exponent =>
    String.ofList ((if negative then ['-'] else []) ++ displayFinite mantissa exponent)
  | .infinite negative => if negative then "-inf" else "inf"
  | .nan => "nan"

end ApiPages.Double
