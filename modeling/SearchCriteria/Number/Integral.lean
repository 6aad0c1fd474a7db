import SearchCriteria.Fault
import SearchCriteria.Number.Numeral

/-! # Values as integers -/

namespace SearchCriteria

/-- The integer that a text writes. -/
def Numeral.integerOfText (s : String) : Except Fault Int :=
  match integer s.toList with
  | .ok i => .ok i
  | .error .malformed => .error (.malformedInteger s)
  | .error (.tooLong digits) => .error (.longInteger digits)

/-- Truth values count as zero and one, a fraction is cut off, and text is read. -/
def Value.toInteger : Value → Except Fault Int
  | .bool b => .ok (if b then 1 else 0)
  | .int i => .ok i
  | .real (.finite negative mantissa exponent) =>
    .ok (Binary64.truncate negative mantissa exponent)
  | .real (.infinite _) => .error .integerOfInfinity
  | .real (.nan _) => .error .integerOfNan
  | .text s => Numeral.integerOfText s
  | v => .error (.notIntegral v.kind)

@[simp] theorem Value.toInteger_int (i : Int) : Value.toInteger (.int i) = .ok i := rfl

end SearchCriteria
