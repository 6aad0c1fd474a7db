/-! # Double precision numbers as exact dyadic fractions -/

namespace SearchCriteria

/--
A double: `finite` stands for `± mantissa * 2 ^ exponent`, where the mantissa is below `2 ^ 53` and
the exponent is the least that allows it, `-1074` at the lowest. A `tag` tells apart two NaNs that
arose separately: a NaN equals nothing but itself.
-/
inductive Binary64 where
  | finite (negative : Bool) (mantissa : Nat) (exponent : Int)
  | infinite (negative : Bool)
  | nan (tag : Nat)
deriving DecidableEq

/-- The quotient, rounded to the nearest integer, a half to the even neighbour. -/
def divideToNearest (num den : Nat) : Nat :=
  let quotient := num / den
  let rest := num % den
  if den < 2 * rest || (2 * rest = den && quotient % 2 = 1) then quotient + 1 else quotient

/-- `num * 2 ^ k / den` as a numerator and a denominator. -/
def scaleByTwo (num den : Nat) : Int → Nat × Nat
  | .ofNat k => (num * Nat.pow 2 k, den)
  | .negSucc k => (num, den * Nat.pow 2 (k + 1))

namespace Binary64

def isZero : Binary64 → Bool
  | .finite _ mantissa _ => mantissa == 0
  | _ => false

/-- The exponent of the doubles nearest to a positive fraction. -/
def gridExponent (num den : Nat) : Int :=
  let guess : Int := num.log2 - den.log2
  let scaled := scaleByTwo num den (-guess)
  let floorLog := if scaled.2 ≤ scaled.1 then guess else guess - 1
  max (floorLog - 52) (-1074)

/-- The double nearest to a fraction, a half to the even neighbour, infinite beyond the range. -/
def ofRatio (negative : Bool) (num den : Nat) : Binary64 :=
  if num = 0 then .finite negative 0 (-1074)
  else
    let exponent := gridExponent num den
    let scaled := scaleByTwo num den (-exponent)
    let mantissa := divideToNearest scaled.1 scaled.2
    let carried :=
      if mantissa = Nat.pow 2 53 then (Nat.pow 2 52, exponent + 1) else (mantissa, exponent)
    if 971 < carried.2 then .infinite negative else .finite negative carried.1 carried.2

/-- The double nearest to `± digits * 10 ^ exponent`. -/
def ofDecimal (negative : Bool) (digits : Nat) : Int → Binary64
  | .ofNat k => ofRatio negative (digits * Nat.pow 10 k) 1
  | .negSucc k => ofRatio negative digits (Nat.pow 10 (k + 1))

/-- The exact value of a finite double. -/
def magnitude (mantissa : Nat) : Int → Rat
  | .ofNat k => (mantissa * Nat.pow 2 k : Nat)
  | .negSucc k => mkRat mantissa (Nat.pow 2 (k + 1))

/-- The integer part: the fraction is cut off, whatever the sign. -/
def truncate (negative : Bool) (mantissa : Nat) (exponent : Int) : Int :=
  let scaled := scaleByTwo mantissa 1 exponent
  let whole : Int := (scaled.1 / scaled.2 : Nat)
  if negative then -whole else whole

end Binary64

/-- What a number is worth, whatever its written form. -/
inductive Quantity where
  | finite (value : Rat)
  | infinite (negative : Bool)
  | nan (tag : Nat)
deriving DecidableEq

def Binary64.quantity : Binary64 → Quantity
  | .finite false mantissa exponent => .finite (magnitude mantissa exponent)
  | .finite true mantissa exponent => .finite (-magnitude mantissa exponent)
  | .infinite negative => .infinite negative
  | .nan tag => .nan tag

end SearchCriteria
