namespace ApiPages

/-- A number in double precision: `mantissa * 2 ^ exponent` with a sign, where the mantissa is
below `2 ^ 53` and the exponent as small as it can be without going below `-1074`. -/
inductive Double where
  | finite (negative : Bool) (mantissa : Nat) (exponent : Int)
  | infinite (negative : Bool)
  | nan
  deriving DecidableEq, Repr

namespace Double

def minExponent : Int := -1074

def maxExponent : Int := 971

/-- The whole number nearest to a quotient; from the middle between two it goes to the even one. -/
def roundQuotient (num den : Nat) : Nat :=
  let q := num / den
  let twice := 2 * (num % den)
  if twice < den then q
  else if den < twice then q + 1
  else q + q % 2

def roundAt (num den : Nat) (exponent : Int) : Nat :=
  roundQuotient (num * Nat.pow 2 (-exponent).toNat) (den * Nat.pow 2 exponent.toNat)

/-- An exponent for which `num / den / 2 ^ exponent` lies between `2 ^ 52` and `2 ^ 53`, unless
that is too small. -/
def exponentOf (num den : Nat) : Int :=
  let guess : Int := (num.log2 : Int) - den.log2 - 52
  let fits := den * Nat.pow 2 (guess.toNat + 52) ≤ num * Nat.pow 2 (-guess).toNat
  max minExponent (if fits then guess else guess - 1)

def ofQuotient (negative : Bool) (num den : Nat) : Double :=
  if num = 0 then .finite negative 0 minExponent
  else
    let exponent := exponentOf num den
    let rounded := roundAt num den exponent
    let (mantissa, exponent) :=
      if rounded = Nat.pow 2 53 then (Nat.pow 2 52, exponent + 1) else (rounded, exponent)
    if maxExponent < exponent then .infinite negative else .finite negative mantissa exponent

def digitCount (n : Nat) : Nat :=
  (Nat.toDigits 10 n).length

/-- The double nearest to `digits * 10 ^ exponent`. Far beyond the range of doubles the power is
not computed. -/
def ofScientific (negative : Bool) (digits : Nat) (exponent : Int) : Double :=
  let magnitude := exponent + digitCount digits
  if digits = 0 ∨ magnitude < -330 then .finite negative 0 minExponent
  else if 310 < magnitude then .infinite negative
  else ofQuotient negative (digits * Nat.pow 10 exponent.toNat) (Nat.pow 10 (-exponent).toNat)

/-- A finite double without its sign, counted in the smallest unit. -/
def units? : Double → Option Nat
  | .finite _ mantissa exponent => some (mantissa * Nat.pow 2 (exponent - minExponent).toNat)
  | _ => none

def plus (a b : Double) : Double :=
  match a.units?, b.units? with
  | some m, some n => ofQuotient false (m + n) (Nat.pow 2 1074)
  | _, _ => .infinite false

/-- The double nearest to the product of two without a sign, the second of which is not zero. -/
def times (a b : Double) : Double :=
  match a.units?, b.units? with
  | some m, some n => ofQuotient false (m * n) (Nat.pow 2 2148)
  | _, _ => .infinite false

def isZero : Double → Bool
  | .finite _ mantissa _ => mantissa == 0
  | _ => false

def negate : Double → Double
  | .finite negative mantissa exponent => .finite (!negative) mantissa exponent
  | .infinite negative => .infinite (!negative)
  | .nan => .nan

example : ofScientific false 21 (-1) = .finite false 4728779608739021 (-51) := by decide +kernel

example : ofScientific false 5 (-324) = .finite false 1 (-1074) := by decide +kernel

example : ofScientific false 9007199254740993 0 = .finite false 4503599627370496 1 := by
  decide +kernel

example : ofScientific true 17 399 = .infinite true := by decide +kernel

end Double

end ApiPages
