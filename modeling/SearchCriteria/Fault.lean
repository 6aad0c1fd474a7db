import SearchCriteria.Criteria.Storage
import SearchCriteria.Value.Basic

/-! # Why an operation is refused -/

namespace SearchCriteria

/-- Why a value is no join mode. -/
inductive ModeRefusal where
  | invalid (value : Value)
  /-- Text of the form of a fraction, but with a margin that no numeral may have. -/
  | unreadable (text : String)

/-- One finding about a configuration field. -/
inductive ConfigIssue where
  | notMode (field : String)
  | refusedMode (field : String) (refusal : ModeRefusal)
  | notText (field : String)
  | frozen (field : String)

/-- The causes of failure. Where only the kind of a value matters, its name is kept. -/
inductive Fault where
  -- expression nodes
  | blankField (name : Value)
  | noBounds (field : String)
  | unknownBound (field : String) (bound : Value)
  | boundWithoutValue (field : String) (bound : Bound)
  | blankScript (source : Value)
  | noParts (kind : String)
  | notNode (kind : String)
  | notFragment (kind : String)
  | noLookups
  | lookupNotSequence (lookup field kind : String)
  | lookupNotBool (field kind : String)
  | unrenderable
  -- scoring
  | unknownDecay (function field : Value)
  -- patches
  | optionsNotMapping (kind : String)
  | patchNotMapping (storage : Storage) (kind : String)
  | patchNotClauses (storage : Storage) (kind : String)
  | mergeNotCriteria (kind : String)
  | unknownStorage (name : String)
  -- configuration
  | refusedMode (refusal : ModeRefusal)
  | refusedOption (option : String) (value : Value) (refusal : ModeRefusal)
  | refusedConfig (issues : List ConfigIssue)
  -- shapes of values
  | notClause (kind : String)
  | unhashable (kind : String)
  | notIterable (kind : String)
  | notUnpackable (kind : String)
  | tooManyParts
  | tooFewParts (count : Nat)
  | entryNotSequence (index : Nat)
  | entryLength (index length : Nat)
  /-- Lists and sets remove items, but not by a key. -/
  | removalByKey (kind : String)
  | notCallable (kind : String)
  | unsupportedOperands (operator left right : String)
  | notClass (kind : String)
  | notContents (kind : String)
  | noLength (kind : String)
  -- assignments
  | nameNotText (kind : String)
  | readOnlyProperty (holder name : String)
  | readOnlyAttribute (holder name : String)
  -- settings
  | unreadableSetting (name : String)
  | argumentsNotListed (type : String)
  -- integers
  | notIntegral (kind : String)
  | malformedInteger (text : String)
  | longInteger (digits : Nat)
  /-- An integer of too many digits is to be written. -/
  | unwritable
  | integerOfNan
  | integerOfInfinity
  -- calls
  | namesNotText
  | repeatedArgument (call name : String)
  | repeatedKeyword (call name : String)
  | unexpectedArgument (call name : String)
  | tooManyArguments (call : String) (least most given : Nat)
  | missingArguments (call : String) (names : List String)
  | missingOperation (holder name : String)

/-- The sort of a fault, for those who tell faults apart without their cause. -/
inductive FaultKind where
  | field | patch | option | config | settings
  | type | value | overflow | key | operation | unrenderable
deriving DecidableEq, Repr

/-- The sort of a fault by its cause. -/
def Fault.sort : Fault → FaultKind
  | .blankField _ | .noBounds _ | .unknownBound .. | .boundWithoutValue .. | .blankScript _
  | .noParts _ | .notNode _ | .notFragment _ | .noLookups | .lookupNotSequence ..
  | .lookupNotBool .. | .unknownDecay .. => .field
  | .optionsNotMapping _ | .patchNotMapping .. | .patchNotClauses .. | .mergeNotCriteria _ => .patch
  | .refusedOption .. => .option
  | .refusedConfig _ => .config
  | .unreadableSetting _ | .argumentsNotListed _ => .settings
  | .notClause _ | .unhashable _ | .notIterable _ | .notUnpackable _ | .entryNotSequence _
  | .removalByKey _ | .notCallable _ | .unsupportedOperands .. | .notClass _ | .notContents _
  | .noLength _ | .nameNotText _ | .notIntegral _ | .namesNotText | .repeatedArgument ..
  | .repeatedKeyword .. | .unexpectedArgument .. | .tooManyArguments .. | .missingArguments .. =>
    .type
  | .refusedMode _ | .tooManyParts | .tooFewParts _ | .entryLength .. | .malformedInteger _
  | .longInteger _ | .unwritable | .integerOfNan => .value
  | .integerOfInfinity => .overflow
  | .unknownStorage _ => .key
  | .missingOperation .. | .readOnlyProperty .. | .readOnlyAttribute .. => .operation
  | .unrenderable => .unrenderable

end SearchCriteria
