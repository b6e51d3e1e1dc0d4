import ApiPages.Fault
import ApiPages.Number
import ApiPages.Text.Digit
import ApiPages.Text.Split

namespace ApiPages.Yaml

def isDigitOr (mark : Char) (c : Char) : Bool :=
  c.isDigit || c == mark

def sign : List Char → Bool × List Char
  | '-' :: cs => (true, cs)
  | '+' :: cs => (false, cs)
  | cs => (false, cs)

def isSixtieth : List Char → Bool
  | [d] => d.isDigit
  | [t, d] => '0' ≤ t && t ≤ '5' && d.isDigit
  | _ => false

/-- Whether a text is a whole number: in base two, eight, ten or sixteen, or in places of sixty
with colons between them. -/
def looksWhole (cs : List Char) : Bool :=
  match (sign cs).2 with
  | '0' :: 'b' :: ds => !ds.isEmpty && ds.all fun c => c == '0' || c == '1' || c == '_'
  | '0' :: 'x' :: ds => !ds.isEmpty && ds.all fun c => (Text.hexDigit? c).isSome || c == '_'
  | '0' :: ds => ds.all fun c => ('0' ≤ c && c ≤ '7') || c == '_'
  | d :: ds =>
    let places := Text.splitAt ':' ds
    d.isDigit && (places.head?.all (·.all (isDigitOr '_'))) && (places.drop 1).all isSixtieth
  | [] => false

def looksExponent : List Char → Bool
  | [] => true
  | e :: s :: ds =>
    (e == 'e' || e == 'E') && (s == '+' || s == '-') && !ds.isEmpty && ds.all Char.isDigit
  | _ => false

def looksFraction (cs : List Char) : Bool :=
  match cs with
  | '.' :: ds => looksExponent (ds.dropWhile (isDigitOr '_'))
  | _ => false

def looksLastSixtieth (cs : List Char) : Bool :=
  isSixtieth (cs.takeWhile Char.isDigit) &&
    match cs.dropWhile Char.isDigit with
    | '.' :: ds => ds.all (isDigitOr '_')
    | _ => false

def infinityWords : List String :=
  [".inf", ".Inf", ".INF"]

def nanWords : List String :=
  [".nan", ".NaN", ".NAN"]

/-- Whether a text is a number with a decimal point, an infinity, or no number at all. Without a
digit in front of its point it has no sign. -/
def looksDecimal (cs : List Char) : Bool :=
  let bare := (sign cs).2
  let places := Text.splitAt ':' bare
  let whole (ds : List Char) : Bool :=
    ds.head?.any Char.isDigit && ds.all (isDigitOr '_')
  (bare.head?.any Char.isDigit && looksFraction (bare.dropWhile (isDigitOr '_'))) ||
    ((cs.drop 1).head?.any Char.isDigit && looksFraction cs) ||
    (2 ≤ places.length && places.head?.any whole && (places.drop 1).dropLast.all isSixtieth &&
      places.getLast?.any looksLastSixtieth) ||
    infinityWords.contains (String.ofList bare) || nanWords.contains (String.ofList cs)

def inBase (base : Nat) (cs : List Char) : Except Fault Nat :=
  let digits := cs.mapM fun c => (Text.hexDigit? c).filter (· < base)
  match digits with
  | some (d :: ds) => .ok ((d :: ds).foldl (· * base + ·) 0)
  | _ => .error (.notANumber base (String.ofList cs))

/-- The value of digits in base ten, unless there are too many. -/
def decimalPlace (cs : List Char) : Except Fault Nat :=
  let count := (cs.takeWhile Char.isDigit).length
  if Number.digitLimit < count then .error (.tooManyDigitsRead count) else inBase 10 cs

def wholeOf (cs : List Char) : Except Fault Int :=
  let (negative, ds) := sign (cs.filter (· ≠ '_'))
  let magnitude : Except Fault Nat :=
    match ds with
    | ['0'] => .ok 0
    | '0' :: 'b' :: bits => inBase 2 bits
    | '0' :: 'x' :: digits => inBase 16 digits
    | '0' :: _ => inBase 8 ds
    | _ =>
      (Text.splitAt ':' ds).foldlM (fun n place => (decimalPlace place).map (n * 60 + ·)) 0
  magnitude.map (Number.signed negative)

def exponentOf : List Char → Except Fault Int
  | [] => .ok 0
  | 'e' :: cs => (inBase 10 (sign cs).2).map (Number.signed (sign cs).1)
  | cs => .error (.notADecimal (String.ofList cs))

def decimalOf (cs : List Char) : Except Fault Double :=
  let whole := cs.takeWhile Char.isDigit
  let rest := cs.dropWhile Char.isDigit
  let behind := if rest.head? = some '.' then rest.drop 1 else []
  let part := behind.takeWhile Char.isDigit
  let tail := if rest.head? = some '.' then behind.dropWhile Char.isDigit else rest
  match inBase 10 (whole ++ part), exponentOf tail with
  | .ok digits, .ok exponent =>
    .ok (Double.ofScientific false digits (exponent - part.length))
  | _, _ => .error (.notADecimal (String.ofList cs))

/-- The sum of places of sixty, the last of them first; every step is rounded. -/
def sumSixties : Nat → Double → List (List Char) → Except Fault Double
  | _, sum, [] => .ok sum
  | unit, sum, place :: places => do
    let d ← decimalOf place
    sumSixties (unit * 60) (sum.plus (d.times (Double.ofQuotient false unit 1))) places

def doubleOf (cs : List Char) : Except Fault Double :=
  let (negative, bare) := sign ((cs.filter (· ≠ '_')).map Char.toLower)
  let magnitude : Except Fault Double :=
    if bare = ".inf".toList then .ok (.infinite false)
    else if bare = ".nan".toList then .ok .nan
    else if bare.contains ':' then
      sumSixties 1 (Double.ofQuotient false 0 1) (Text.splitAt ':' bare).reverse
    else decimalOf bare
  magnitude.map fun d => if negative then d.negate else d

end ApiPages.Yaml
