import SearchCriteria.Expression.Fragment
import SearchCriteria.Text.Blank

/-!
# Lookups

A lookup key names a field and an operator, `field__operator`; all lookups of a node hold together,
and the ends given for one field make one range.
-/

namespace SearchCriteria

/-- What a lookup compares its field with. -/
inductive Operator where
  | eq | ne | oneOf | noneOf | bound (b : Bound) | present
deriving DecidableEq, Repr

namespace Operator

def name : Operator → String
  | .eq => "eq"
  | .ne => "ne"
  | .oneOf => "in"
  | .noneOf => "nin"
  | .bound b => b.name
  | .present => "exists"

def all : List Operator :=
  [.eq, .ne, .oneOf, .noneOf, .bound .gt, .bound .gte, .bound .lt, .bound .lte, .present]

def ofName? (s : String) : Option Operator := all.find? (·.name == s)

theorem mem_all (o : Operator) : o ∈ all := by
  cases o with
  | bound b => cases b <;> simp [all]
  | _ => simp [all]

@[simp] theorem ofName?_name (o : Operator) : ofName? o.name = some o := by
  cases o with
  | bound b => cases b <;> rfl
  | _ => rfl

end Operator

namespace LookupKey

/-- The parts around the last double underscore. -/
def splitLast : List Char → Option (List Char × List Char)
  | [] => none
  | c :: cs =>
    match splitLast cs with
    | some (before, behind) => some (c :: before, behind)
    | none =>
      match c, cs with
      | '_', '_' :: behind => some ([], behind)
      | _, _ => none

/-- Double underscores, from the left, stand for the dots of a path. -/
def dotted : List Char → List Char
  | '_' :: '_' :: cs => '.' :: dotted cs
  | c :: cs => c :: dotted cs
  | [] => []

/-- Field and operator; a key without a known operator is an equality on the whole key. -/
def read (key : String) : String × Operator :=
  let whole := (String.ofList (dotted key.toList), Operator.eq)
  match splitLast key.toList with
  | none => whole
  | some (before, behind) =>
    match Operator.ofName? (String.ofList behind) with
    | some operator => (String.ofList (dotted before), operator)
    | none => whole

end LookupKey

/-- A single test of a field. -/
inductive FieldTest where
  | term (field : String) (value : Value)
  | range (field : String) (limits : List (Limit Value))
  | present (field : String)

/-- A test that has to hold, or to fail. -/
structure Condition where
  test : FieldTest
  negated : Bool

namespace FieldTest

def toExpression : FieldTest → Expression
  | .term field value => .term field value
  | .range field limits => .range field limits
  | .present field => .present field

def fragment : FieldTest → Mapping
  | .term field value => Fragment.term field value
  | .range field limits => Fragment.range field limits
  | .present field => Fragment.present field

end FieldTest

namespace Condition

def toExpression (c : Condition) : Expression :=
  if c.negated then .not c.test.toExpression else c.test.toExpression

def fragment (c : Condition) : Mapping :=
  if c.negated then Fragment.negation c.test.fragment else c.test.fragment

end Condition

/-- A term keeps the items of a list as a tuple. -/
def Value.termValue : Value → Value
  | .list items => .tuple items
  | value => value

abbrev Lookups := List (String × Value)

namespace Lookups

/-- The ends that the lookups give for a field, a repeated one with its last value. -/
def bounds (lookups : Lookups) (field : String) : List (Bound × Value) :=
  Association.ofList (· == ·) (lookups.filterMap fun (key, value) =>
    match LookupKey.read key with
    | (name, .bound b) => if name = field then some (b, value) else none
    | _ => none)

/-- The one range of a field. -/
def rangeOn (lookups : Lookups) (field : String) : FieldTest :=
  .range field ((lookups.bounds field).map fun (bound, value) => ⟨bound, value, .tuple⟩)

/-- The conditions of the remaining lookups; `ranged` holds the fields whose range is placed. -/
def conditionsFrom (lookups : Lookups) (ranged : List String) : Lookups → List Condition
  | [] => []
  | (key, value) :: rest =>
    match LookupKey.read key with
    | (field, .bound _) =>
      if ranged.contains field then conditionsFrom lookups ranged rest
      else ⟨lookups.rangeOn field, false⟩ :: conditionsFrom lookups (field :: ranged) rest
    | (field, .eq) =>
      ⟨.term field value.termValue, false⟩ :: conditionsFrom lookups ranged rest
    | (field, .ne) =>
      ⟨.term field value.termValue, true⟩ :: conditionsFrom lookups ranged rest
    | (field, .oneOf) =>
      ⟨.term field value.termValue, false⟩ :: conditionsFrom lookups ranged rest
    | (field, .noneOf) =>
      ⟨.term field value.termValue, true⟩ :: conditionsFrom lookups ranged rest
    | (field, .present) =>
      ⟨.present field, !value.truthy⟩ :: conditionsFrom lookups ranged rest

/-- The conditions in lookup order, a range at the first end given for its field. -/
def conditions (lookups : Lookups) : List Condition := conditionsFrom lookups [] lookups

/-- The nodes whose conjunction the lookups describe. -/
def nodes (lookups : Lookups) : List Expression := lookups.conditions.map Condition.toExpression

def fragment (lookups : Lookups) : Mapping :=
  Fragment.allOf (lookups.conditions.map Condition.fragment)

end Lookups

/-- A field name holds a character that is not blank. -/
def requireName (field : String) : Except Fault Unit :=
  if Text.isBlank field then .error (.blankField (.text field)) else .ok ()

/-- An end of a range has a value. -/
def requireLimit (field : String) (bound : Bound) : Value → Except Fault Unit
  | .null => .error (.boundWithoutValue field bound)
  | _ => .ok ()

def requireLimits (field : String) (ls : List (Limit Value)) : Except Fault Unit :=
  ls.forM fun l => requireLimit field l.bound l.value

namespace Lookups

def requireSequence (operator : Operator) (field : String) : Value → Except Fault Unit
  | .list _ | .tuple _ => .ok ()
  | value => .error (.lookupNotSequence operator.name field value.kind)

def requireBool (field : String) : Value → Except Fault Unit
  | .bool _ => .ok ()
  | value => .error (.lookupNotBool field value.kind)

/-- Each lookup on its own, and the first end given for each field. -/
def checkEach (ranged : List String) : Lookups → Except Fault Unit
  | [] => .ok ()
  | (key, value) :: rest =>
    match LookupKey.read key with
    | (field, .bound b) =>
      if ranged.contains field then checkEach ranged rest
      else do
        requireName field
        requireLimit field b value
        checkEach (field :: ranged) rest
    | (field, .oneOf) => do
      requireSequence .oneOf field value
      requireName field
      checkEach ranged rest
    | (field, .noneOf) => do
      requireSequence .noneOf field value
      requireName field
      checkEach ranged rest
    | (field, .present) => do
      requireBool field value
      requireName field
      checkEach ranged rest
    | (field, .eq) => do
      requireName field
      checkEach ranged rest
    | (field, .ne) => do
      requireName field
      checkEach ranged rest

/-- The joined ranges, once all their ends are known. -/
def checkRange (c : Condition) : Except Fault Unit :=
  match c.test with
  | .range field ls => requireLimits field ls
  | _ => .ok ()

def check (lookups : Lookups) : Except Fault Unit := do
  checkEach [] lookups
  lookups.conditions.forM checkRange

end Lookups

end SearchCriteria
