import SearchCriteria.Number.Binary64

/-! # The shortest decimal text of a double -/

namespace SearchCriteria

/-- The decimal digits of a number, the highest first; zero has the digit `0`. -/
def decimalDigits (n : Nat) : List Char := Nat.toDigits 10 n

namespace Binary64

/-- `k` with `10 ^ k ≤ num / den < 10 ^ (k + 1)`, for a positive fraction. -/
def decimalExponent (num den : Nat) : Int :=
  if den ≤ num then (decimalDigits (num / den)).length - 1
  else Int.negOfNat (decimalDigits ((den + num - 1) / num - 1)).length

/-- `num * 10 ^ k / den` as a numerator and a denominator. -/
def scaleByTen (num den : Nat) : Int → Nat × Nat
  | .ofNat k => (num * Nat.pow 10 k, den)
  | .negSucc k => (num, den * Nat.pow 10 (k + 1))

/--
The decimals that are read back as a given double lie between `low` and `high`, as multiples of a
quarter of the double's grid step; the ends belong to them when the mantissa is even.
-/
structure ReadBack where
  value : Nat
  low : Nat
  high : Nat
  closed : Bool

/-- Below a power of two the neighbour is only half a grid step away. -/
def readBack (mantissa : Nat) (exponent : Int) : ReadBack where
  value := 4 * mantissa
  low := 4 * mantissa - if mantissa = Nat.pow 2 52 && -1074 < exponent then 1 else 2
  high := 4 * mantissa + 2
  closed := mantissa % 2 == 0

def ReadBack.holds (r : ReadBack) (num den : Nat) : Bool :=
  if r.closed then r.low * den ≤ num && num ≤ r.high * den
  else r.low * den < num && num < r.high * den

/-- The decimal with `count` digits that is read back as the double, the nearer one of two. -/
def decimalWith? (r : ReadBack) (exponent point : Int) (count : Nat) : Option Nat :=
  -- one unit of the decimal grid is `unit.1 / unit.2` quarter steps
  let ten := scaleByTen 1 1 (point - count + 1)
  let unit := scaleByTwo ten.1 ten.2 (2 - exponent)
  let below := r.value * unit.2 / unit.1
  let distance := r.value * unit.2 - below * unit.1
  match r.holds (below * unit.1) unit.2, r.holds ((below + 1) * unit.1) unit.2 with
  | true, true =>
    if 2 * distance < unit.1 || (2 * distance = unit.1 && below % 2 = 0) then some below
    else some (below + 1)
  | true, false => some below
  | false, true => some (below + 1)
  | false, false => none

/--
The fewest decimal digits that are read back as the double, and the power of ten of the first one.
Seventeen digits always suffice.
-/
def shortest (mantissa : Nat) (exponent : Int) : List Char × Int :=
  let r := readBack mantissa exponent
  let scaled := scaleByTwo mantissa 1 exponent
  let point := decimalExponent scaled.1 scaled.2
  let found := (List.range 17).findSome? fun i =>
    (decimalWith? r exponent point (i + 1)).map fun n => (i + 1, n)
  let (count, n) := found.getD (1, 0)
  let digits := decimalDigits n
  -- rounding up may have carried into one more digit, a one before zeros
  let kept := (digits.reverse.dropWhile (· == '0')).reverse
  (if kept.isEmpty then ['0'] else kept, point + ((digits.length : Int) - count))

/-- A decimal exponent with its sign and at least two digits. -/
def exponentText (k : Int) : List Char :=
  let digits := decimalDigits k.natAbs
  (if k < 0 then '-' else '+') :: (if digits.length < 2 then '0' :: digits else digits)

/-- Digits before the point, the point, and at least one digit after it. -/
def positional (digits : List Char) (point : Int) : List Char :=
  if point < 0 then
    '0' :: '.' :: (List.replicate (point.natAbs - 1) '0' ++ digits)
  else
    let whole := point.toNat + 1
    let fraction := digits.drop whole
    digits.take whole ++ List.replicate (whole - digits.length) '0' ++
      '.' :: (if fraction.isEmpty then ['0'] else fraction)

def scientific (digits : List Char) (point : Int) : List Char :=
  match digits with
  | [] => []
  | [d] => d :: 'e' :: exponentText point
  | d :: rest => d :: '.' :: (rest ++ 'e' :: exponentText point)

/-- Positional from `0.0001` up to and not including `10 ^ 16`, with an exponent elsewhere. -/
def magnitudeText (mantissa : Nat) (exponent : Int) : List Char :=
  if mantissa = 0 then ['0', '.', '0']
  else
    let (digits, point) := shortest mantissa exponent
    if -4 ≤ point && point < 16 then positional digits point else scientific digits point

def signText (negative : Bool) : String := if negative then "-" else ""

def text : Binary64 → String
  | .finite negative mantissa exponent =>
    signText negative ++ String.ofList (magnitudeText mantissa exponent)
  | .infinite negative => signText negative ++ "inf"
  | .nan _ => "nan"

end Binary64

end SearchCriteria
