import ApiPages.Double.Shortest

namespace ApiPages

inductive Number where
  | int (n : Int)
  | double (d : Double)
  deriving DecidableEq, Repr

namespace Number

/-- A number as the order of numbers sees it: infinities lie beyond all finite numbers, which are
counted in the smallest unit of a double. -/
structure Size where
  beyond : Int
  units : Int
  deriving DecidableEq, Repr

def signed (negative : Bool) (n : Nat) : Int :=
  if negative then -(n : Int) else n

def size : Number → Size
  | .int n => ⟨0, n * (Nat.pow 2 1074 : Nat)⟩
  | .double (.finite negative mantissa exponent) =>
    ⟨0, signed negative (mantissa * Nat.pow 2 (exponent + 1074).toNat)⟩
  | .double (.infinite negative) => ⟨signed negative 1, 0⟩
  | .double .nan => ⟨2, 0⟩

def le (a b : Number) : Bool :=
  a.size.beyond < b.size.beyond || (a.size.beyond == b.size.beyond && a.size.units ≤ b.size.units)

/-- Equal as numbers, however they are written; what is no number equals nothing. -/
def same (a b : Number) : Bool :=
  a.size == b.size && a != .double .nan

/-- A whole number with more digits is neither read nor written in base ten. -/
def digitLimit : Nat := 4300

def isTooLong : Number → Bool
  | .int n => Nat.pow 10 digitLimit ≤ n.natAbs
  | .double _ => false

def isZero : Number → Bool
  | .int n => n == 0
  | .double d => d.isZero

def infinity : Number :=
  .double (.infinite false)

def display : Number → String
  | .int n => toString n
  | .double d => d.display

theorem isTooLong_int {n : Int} :
    (int n).isTooLong = true ↔ digitLimit < (Nat.toDigits 10 n.natAbs).length := by
  have hlength := @Nat.length_toDigits_le_iff 10 n.natAbs digitLimit (by decide) (by decide)
  rw [isTooLong, decide_eq_true_eq, Nat.pow_eq, ← Nat.not_le, hlength, Nat.not_lt]

theorem le_total (a b : Number) : a.le b || b.le a := by
  simp only [le, Bool.or_eq_true, Bool.and_eq_true, beq_iff_eq, decide_eq_true_eq]
  omega

theorem le_trans {a b c : Number} (hab : a.le b) (hbc : b.le c) : a.le c := by
  simp only [le, Bool.or_eq_true, Bool.and_eq_true, beq_iff_eq, decide_eq_true_eq] at *
  omega

end Number

end ApiPages
