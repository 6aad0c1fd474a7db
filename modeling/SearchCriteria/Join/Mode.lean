import SearchCriteria.Join.Basic
import SearchCriteria.Number.Numeral
import SearchCriteria.Text.Pattern

/-!
# Valid join modes

A mode is a name, a number, a number of clauses that should match written as text, or a fraction
written as text, which becomes the number it denotes.
-/

namespace SearchCriteria.JoinMode

open Text Text.Pattern

/-- An integer or a percentage: `-?\d+%?` -/
def countPattern : Pattern :=
  .seq (optional (char '-')) (.seq (plus (.one .digit)) (optional (char '%')))

/-- From so many clauses on, a count: `\d+<-?\d+%?\s*` -/
def conditionPattern : Pattern :=
  .seq (plus (.one .digit))
    (.seq (char '<') (.seq countPattern (.star (.one .blank))))

/-- How many clauses should match: one count, or a row of conditions. -/
def minimumPattern : Pattern := .alt countPattern (plus conditionPattern)

/-- A fraction: `\d*\.\d+` -/
def fractionPattern : Pattern :=
  .seq (.star (.one .digit)) (.seq (char '.') (plus (.one .digit)))

/-- The mode that text stands for. Names allow no blanks around them, the other forms do. -/
def checkText (s : String) : Except ModeRefusal Value :=
  let body := strip s.toList
  if (ofName? s).isSome || minimumPattern.accepts body then .ok (.text s)
  else if fractionPattern.accepts body then
    match Numeral.fraction? s.toList with
    | some x => .ok (.real x)
    | none => .error (.unreadable s)
  else .error (.invalid (.text s))

/-- The mode that a value stands for. -/
def check : Value → Except ModeRefusal Value
  | .int i => .ok (.int i)
  | .real x => .ok (.real x)
  | .text s => checkText s
  | v => .error (.invalid v)

end SearchCriteria.JoinMode
