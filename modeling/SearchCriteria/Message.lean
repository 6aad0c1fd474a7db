import SearchCriteria.Diagnostic

/-! # The wording of faults -/

namespace SearchCriteria

/-- What is said of an integer that is too long to be written. -/
def unwritableText : String :=
  "Exceeds the limit (4300 digits) for integer string conversion; " ++
    "use sys.set_int_max_str_digits() to increase the limit"

def ModeRefusal.text : ModeRefusal → String
  | .invalid v => (v.literal?.map ("Invalid join mode: " ++ ·)).getD unwritableText
  | .unreadable s => "could not convert string to float: " ++ Text.quoted s

def ConfigIssue.text : ConfigIssue → String
  | .notMode field =>
    field ++ ".int: Input should be a valid integer; " ++
    field ++ ".float: Input should be a valid number; " ++
    field ++ ".str: Input should be a valid string"
  | .refusedMode field refusal => field ++ ": Value error, " ++ refusal.text
  | .notText field => field ++ ": Input should be a valid string"
  | .frozen field => field ++ ": Instance is frozen"

/-- Names in quotes, the last one after "and". -/
def listedNames : List String → String
  | [] => ""
  | [a] => Text.quoted a
  | [a, b] => Text.quoted a ++ " and " ++ Text.quoted b
  | names =>
    commaSeparated (names.dropLast.map Text.quoted) ++ ", and " ++
      Text.quoted (names.getLast?.getD "")

def plural (count : Nat) (noun : String) : String := if count = 1 then noun else noun ++ "s"

namespace Fault

/-- Longer quoted text is cut in messages about integers. -/
def maxQuoted : Nat := 200

def decayNames : List String := ["gauss", "exp", "linear"]

/-- The message, if it can be written, and the details of a fault that comes with details. -/
def detailed? : Fault → Option (Option String × List (String × Value))
  | .blankField name => some
    (some "Field name must be a non-empty string", [("field", name)])
  | .noBounds field => some
    (some "Range requires at least one bound", [("field", .text field)])
  | .unknownBound field bound => some
    (do return "Range bound " ++ (← bound.literal?) ++ " is not supported. Supported: " ++
      commaSeparated (Bound.all.map Bound.name), [("field", .text field)])
  | .boundWithoutValue field bound => some
    (some "Range bound value cannot be None",
      [("field", .text field), ("bound", .text bound.name)])
  | .blankScript source => some
    (some "Script source must be a non-empty string", [("script", source)])
  | .noParts kind => some (some (kind ++ " requires at least one node"), [])
  | .notNode kind => some
    (some "Cannot combine with a non-node value", [("got", .text kind)])
  | .notFragment kind => some
    (some "Raw fragment must be a mapping", [("got", .text kind)])
  | .noLookups => some (some "Q requires at least one lookup", [])
  | .lookupNotSequence lookup field kind => some
    (some ("Lookup '" ++ lookup ++ "' expects a list or tuple"),
      [("field", .text field), ("got", .text kind)])
  | .lookupNotBool field kind => some
    (some "Lookup 'exists' expects a bool", [("field", .text field), ("got", .text kind)])
  | .unknownDecay function field => some
    (do return "Decay function " ++ (← function.literal?) ++ " is not supported. Supported: " ++
      commaSeparated decayNames, [("field", field)])
  | .optionsNotMapping kind => some
    (some "Options must be a mapping", [("storage", .text "options"), ("got", .text kind)])
  | .patchNotMapping storage kind => some
    (some ("Storage '" ++ storage.name ++ "' expects a mapping patch"),
      [("storage", .text storage.name), ("got", .text kind)])
  | .patchNotClauses storage kind => some
    (some ("Storage '" ++ storage.name ++ "' expects expression nodes or mappings"),
      [("storage", .text storage.name), ("got", .text kind)])
  | .mergeNotCriteria kind => some
    (some "Can only merge another Criteria", [("got", .text kind)])
  | .refusedOption option value refusal => some
    (some refusal.text, [("option", .text option), ("value", value)])
  | _ => none

/-- The text of a fault that comes without details. -/
def plainText : Fault → String
  | .refusedMode refusal => refusal.text
  | .refusedConfig issues => "; ".intercalate (issues.map ConfigIssue.text)
  | .unknownStorage name => Text.quoted name
  | .notClause kind => "clause must be an expression node or mapping, got " ++ kind
  | .unhashable kind => "unhashable type: '" ++ kind ++ "'"
  | .notIterable kind => "'" ++ kind ++ "' object is not iterable"
  | .notUnpackable kind => "cannot unpack non-iterable " ++ kind ++ " object"
  | .tooManyParts => "too many values to unpack (expected 2)"
  | .tooFewParts count =>
    "not enough values to unpack (expected 2, got " ++ toString count ++ ")"
  | .entryNotSequence index =>
    "cannot convert dictionary update sequence element #" ++ toString index ++ " to a sequence"
  | .entryLength index length =>
    "dictionary update sequence element #" ++ toString index ++ " has length " ++
      toString length ++ "; 2 is required"
  | .removalByKey "list" => "pop expected at most 1 argument, got 2"
  | .removalByKey kind => kind ++ ".pop() takes no arguments (2 given)"
  | .notClass kind => "__class__ must be set to a class, not '" ++ kind ++ "' object"
  | .notContents kind => "__dict__ must be set to a dictionary, not a '" ++ kind ++ "'"
  | .noLength kind => "object of type '" ++ kind ++ "' has no len()"
  | .nameNotText kind => "attribute name must be string, not '" ++ kind ++ "'"
  | .readOnlyProperty holder name =>
    "property '" ++ name ++ "' of '" ++ holder ++ "' object has no setter"
  | .readOnlyAttribute holder name =>
    "attribute '" ++ name ++ "' of '" ++ holder ++ "' objects is not writable"
  | .unreadableSetting name =>
    "error getting value for field \"" ++ name ++ "\" from source \"EnvSettingsSource\""
  | .argumentsNotListed type =>
    "cli_parse_args must be a list or tuple of strings, received <class '" ++ type ++ "'>"
  | .notCallable kind => "'" ++ kind ++ "' object is not callable"
  | .unsupportedOperands operator left right =>
    "unsupported operand type(s) for " ++ operator ++ ": '" ++ left ++ "' and '" ++ right ++ "'"
  | .notIntegral kind =>
    "int() argument must be a string, a bytes-like object or a real number, not '" ++ kind ++ "'"
  | .malformedInteger text =>
    "invalid literal for int() with base 10: " ++
      String.ofList ((Text.quotedChars text.toList).take maxQuoted)
  | .longInteger digits =>
    "Exceeds the limit (4300 digits) for integer string conversion: value has " ++
      toString digits ++ " digits; use sys.set_int_max_str_digits() to increase the limit"
  | .unwritable => unwritableText
  | .integerOfNan => "cannot convert float NaN to integer"
  | .integerOfInfinity => "cannot convert float infinity to integer"
  | .namesNotText => "keywords must be strings"
  | .repeatedArgument call name =>
    call ++ "() got multiple values for argument '" ++ name ++ "'"
  | .repeatedKeyword call name =>
    call ++ "() got multiple values for keyword argument '" ++ name ++ "'"
  | .unexpectedArgument call name =>
    call ++ "() got an unexpected keyword argument '" ++ name ++ "'"
  | .tooManyArguments call least most given =>
    let takes := if least = most then toString most ++ " positional " ++ plural most "argument"
      else "from " ++ toString least ++ " to " ++ toString most ++ " positional arguments"
    call ++ "() takes " ++ takes ++ " but " ++ toString given ++ " were given"
  | .missingArguments call names =>
    call ++ "() missing " ++ toString names.length ++ " required positional " ++
      plural names.length "argument" ++ ": " ++ listedNames names
  | .missingOperation holder name =>
    "'" ++ holder ++ "' object has no attribute '" ++ name ++ "'"
  | _ => ""

/-- The text of a fault, if it can be written. A node that renders to nothing says nothing. -/
def text? (f : Fault) : Option String :=
  match f.detailed? with
  | some (message, details) => do withDetails (← message) details
  | none => some f.plainText

/-- The fault that shows: one whose text cannot be written gives way to that. -/
def shown (f : Fault) : Fault := if f.text?.isSome then f else .unwritable

def kind (f : Fault) : FaultKind := f.shown.sort

def message (f : Fault) : String := f.shown.text?.getD ""

end Fault

end SearchCriteria
