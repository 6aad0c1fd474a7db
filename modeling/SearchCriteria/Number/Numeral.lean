import SearchCriteria.Number.Binary64
import SearchCriteria.Text.Blank
import SearchCriteria.Text.Digit

/-! # Numbers and text -/

namespace SearchCriteria.Numeral

open Text

/-- Blank around a numeral: any blank character except the four information separators. -/
def isMargin (c : Char) : Bool :=
  isBlankChar c && !(0x1C ≤ c.toNat && c.toNat ≤ 0x1F)

def trim (cs : List Char) : List Char :=
  ((cs.dropWhile isMargin).reverse.dropWhile isMargin).reverse

/-- Why text is no integer. -/
inductive Refusal where
  | malformed
  /-- More digits than an integer may be written with. -/
  | tooLong (digits : Nat)
deriving DecidableEq

/-- The most digits of a written integer. -/
def maxDigits : Nat := 4300

/-- The text of an integer, unless it has too many digits to be written. -/
def write? (i : Int) : Option String :=
  if (Nat.toDigits 10 i.natAbs).length ≤ maxDigits then some (toString i) else none

/-- A leading sign, and the text after it. -/
def sign : List Char → Bool × List Char
  | '-' :: cs => (true, cs)
  | '+' :: cs => (false, cs)
  | cs => (false, cs)

/-- Every underscore stands between two digits. -/
def underscoresSeparate : Bool → List Char → Bool
  | afterDigit, [] => afterDigit
  | afterDigit, c :: cs =>
    if c = '_' then afterDigit && underscoresSeparate false cs else underscoresSeparate true cs

/--
An integer: an optional sign and decimal digits, with single underscores between digits and blanks
around the whole. The length of the digits is judged before what follows them.
-/
def integer (cs : List Char) : Except Refusal Int :=
  let (negative, body) := sign (cs.dropWhile isMargin)
  let isBody := fun c => isDigit c || c = '_'
  let row := body.takeWhile isBody
  let digits := row.filter isDigit
  if !underscoresSeparate false row then .error .malformed
  else if maxDigits < digits.length then .error (.tooLong digits.length)
  else if !(trim (body.dropWhile isBody)).isEmpty then .error .malformed
  else .ok (if negative then -(digitsValue digits : Int) else digitsValue digits)

/-- Digits around a decimal point, at least one of them after it. -/
def pointed? (cs : List Char) : Option (List Char × List Char) :=
  match cs.dropWhile isDigit with
  | '.' :: fraction =>
    if !fraction.isEmpty && fraction.all isDigit then some (cs.takeWhile isDigit, fraction)
    else none
  | _ => none

/-- The double nearest to a fraction written with a decimal point, blanks around it allowed. -/
def fraction? (cs : List Char) : Option Binary64 :=
  (pointed? (trim cs)).map fun (whole, fraction) =>
    Binary64.ofDecimal false (digitsValue (whole ++ fraction)) (-(fraction.length : Int))

/-- The exponent part after a significand. -/
def exponent? : List Char → Option Int
  | [] => some 0
  | 'e' :: cs =>
    match integer cs with
    | .ok k => some k
    | .error _ => none
  | _ => none

/--
Reads what `Binary64.text` writes, and any significand with an optional exponent. The tag is given
to a NaN.
-/
def double? (tag : Nat) (s : String) : Option Binary64 :=
  let (negative, body) := sign s.toList
  if body = "nan".toList then some (.nan tag)
  else if body = "inf".toList then some (.infinite negative)
  else
    let significand := body.takeWhile fun c => isDigit c || c = '.'
    let whole := significand.takeWhile (· != '.')
    let fraction := (significand.dropWhile (· != '.')).drop 1
    if whole.isEmpty || !fraction.all isDigit then none
    else (exponent? (body.drop significand.length)).map fun k =>
      Binary64.ofDecimal negative (digitsValue (whole ++ fraction)) (k - fraction.length)

end SearchCriteria.Numeral
