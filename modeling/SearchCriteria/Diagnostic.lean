import SearchCriteria.Expression.Render

/-! # Diagnostics: a message with named details -/

namespace SearchCriteria

/-- The families of diagnostics, general ones before their special cases. -/
inductive Family where
  | general | validation | patch | field | configuration | option
deriving DecidableEq, Repr

namespace Family

def name : Family → String
  | .general => "CrossQueryError"
  | .validation => "ValidationError"
  | .patch => "InvalidPatchError"
  | .field => "InvalidFieldError"
  | .configuration => "ConfigurationError"
  | .option => "InvalidConfigError"

def all : List Family := [.general, .validation, .patch, .field, .configuration, .option]

def ofName? (s : String) : Option Family := all.find? (·.name == s)

def parent? : Family → Option Family
  | .general => none
  | .validation | .configuration => some .general
  | .patch | .field => some .validation
  | .option => some .configuration

/-- A family is a special case of itself and of what its parent is. -/
def within (f g : Family) : Bool :=
  f == g || match f.parent? with
    | none => false
    | some p => p == g || p.parent? == some g

/-- The families that a diagnostic belongs to. -/
def families (f : Family) : List Family := all.filter f.within

/-- A patch of the wrong shape is also a mismatch of types. -/
def isTypeMismatch (f : Family) : Bool := f == .patch

theorem mem_all (f : Family) : f ∈ all := by cases f <;> simp [all]

@[simp] theorem ofName?_name (f : Family) : ofName? f.name = some f := by cases f <;> rfl

end Family

/-- Details by name, if they can all be written. -/
def detailsText (details : List (String × Value)) : Option String := do
  let shown ← details.mapM fun (name, value) => value.literal?.map (name ++ "=" ++ ·)
  return commaSeparated shown

/-- A message, then details in parentheses; either may be missing. -/
def withDetails (message : String) (details : List (String × Value)) : Option String :=
  if details.isEmpty then some message
  else if message.isEmpty then detailsText details
  else (detailsText details).map fun shown => message ++ " (" ++ shown ++ ")"

/-- The message is text as a rule, but any value will do. -/
structure Diagnostic where
  family : Family
  message : Value
  details : List (String × Value) := []

namespace Diagnostic

/--
A diagnostic from named details. A detail called `message` is the message, if none is given on its
own.
-/
def create (family : Family) (message : Option Value) (details : Mapping) :
    Except Fault Diagnostic := do
  let named ← details.named
  let taken := if message.isSome then ["self", "message"] else ["self"]
  match named.find? (taken.contains ·.1) with
  | some (name, _) => throw (.repeatedArgument "CrossQueryError.__init__" name)
  | none =>
    let first := message.or (named.lookup "message")
    return ⟨family, first.getD (.text ""), named.filter (·.1 != "message")⟩

/-- The message with the details. One that counts as absent shows only if nothing else does. -/
def text (d : Diagnostic) : Except Fault String := do
  let message ← d.message.display
  let shown := d.message.truthy || d.details.isEmpty
  requireText (withDetails (if shown then message else "") d.details)

/-- The literal text shows all parts. -/
def literal? (d : Diagnostic) : Option String := do
  let message ← d.message.literal?
  let details ← (Value.map (d.details.map fun (name, value) => Mapping.entry name value)).literal?
  return d.family.name ++ "(message=" ++ message ++ ", details=" ++ details ++ ")"

end Diagnostic

end SearchCriteria
