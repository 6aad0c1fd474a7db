import SearchCriteria.Settings.CommandLine
import SearchCriteria.Value.Convert

/-!
# Reading settings

A setting comes from the command line, else from the values that are given directly, else from the
environment. Given names that start with an underscore say how the others are read.
-/

namespace SearchCriteria

/-- How settings are read. -/
structure SettingsReading where
  /-- Names outside the given values have to agree in case, too. -/
  caseSensitive : Bool := false
  /-- What the names in the environment start with. -/
  envPrefix : String := ""
  ignoreEmpty : Bool := false
  /-- The text in the environment that stands for null. -/
  nullText : Option String := none
  /-- The options on the command line. -/
  options : List (String × String) := []
  /-- The text on the command line that stands for null. -/
  optionNullText : Option String := some "null"

namespace SettingsReading

def text? : Value → Option String
  | .text s => some s
  | _ => none

/-- A wish among the given values, null if there is none. -/
def wish (given : List (String × Value)) (name : String) : Value :=
  (given.lookup name).getD .null

/-- Names may be split up to a number of times. No name is, but the number has to be one. -/
def checkSplits (v : Value) : Except Fault Unit :=
  if v.truthy && v.quantity?.isNone then .error (.unsupportedOperands "-" v.kind "int") else .ok ()

/-- A prefix has a length. -/
def checkLength : Value → Except Fault Unit
  | .null => .ok ()
  | v => if v.elements?.isSome then .ok () else .error (.noLength v.kind)

/-- A prefix is text, or it cannot be put before the first name. -/
def readPrefix : Value → Except Fault String
  | .null => .ok ""
  | .text s => .ok s
  | _ => .error (.unreadableSetting "QUERY_MODE")

/-- The type of a value under its full name. -/
def typeName : Value → String
  | .node (.lookup lookups) => "crossquery.querydsl.q." ++ (Expression.lookup lookups).kind
  | .node e => "crossquery.querydsl.nodes." ++ e.kind
  | v => v.kind

/-- The arguments of the command line, none unless they are asked for. -/
def readArguments : Value → Except Fault (List String)
  | .null | .bool _ => .ok []
  | .list arguments | .tuple arguments => .ok (arguments.filterMap text?)
  | v =>
    if v.truthy || v.quantity?.isNone then .error (.argumentsNotListed (typeName v)) else .ok []

/-- Secrets are looked for in one directory or in several, and none is found. -/
def checkDirectories : Value → Except Fault Unit
  | .null => .ok ()
  | v => if v.elements?.isSome then .ok () else .error (.notIterable v.kind)

/-- The text that stands for null on the command line. -/
def readOptionNull (given : List (String × Value)) : Option String :=
  let text := wish given "_cli_parse_none_str"
  if text.truthy then text? text
  else if wish given "_cli_avoid_json" matches .bool true then some "None"
  else some "null"

/-- The wishes among the given values. A prefix that is no text is found out late. -/
def ofGiven (given : List (String × Value)) : Except Fault SettingsReading := do
  checkSplits (wish given "_env_nested_max_split")
  checkLength (wish given "_env_prefix")
  let arguments ← readArguments (wish given "_cli_parse_args")
  let envPrefix ← readPrefix (wish given "_env_prefix")
  checkDirectories (wish given "_secrets_dir")
  return {
    caseSensitive := (wish given "_case_sensitive").truthy
    envPrefix
    ignoreEmpty := (wish given "_env_ignore_empty").truthy
    nullText := text? (wish given "_env_parse_none_str")
    options := CommandLine.options arguments
    optionNullText := readOptionNull given }

/-- Names that agree up to the case of ASCII letters. -/
def sameName (name key : String) : Bool := name.toLower == key.toLower

/-- A key that stands for a name. -/
def standsFor (r : SettingsReading) (name key : String) : Bool :=
  if r.caseSensitive then name == key else sameName name key

/-- A text, or null if the text stands for it. -/
def valueOf (null : Option String) (text : String) : Value :=
  if null == some text then .null else .text text

/-- The option that comes last wins. -/
def option? (r : SettingsReading) (name : String) : Option Value :=
  (r.options.reverse.find? (r.standsFor name ·.1)).map (valueOf r.optionNullText ·.2)

/-- The value given first wins; the case of given names never counts. -/
def givenValue? (given : List (String × Value)) (name : String) : Option Value :=
  (given.find? (sameName name ·.1)).map (·.2)

/-- The variable that comes last wins. -/
def environmentValue? (r : SettingsReading) (environment : List (String × String))
    (name : String) : Option Value :=
  let read := environment.filter fun (_, text) => !(r.ignoreEmpty && text.isEmpty)
  (read.reverse.find? (r.standsFor (r.envPrefix ++ name) ·.1)).map (valueOf r.nullText ·.2)

/-- The command line wins over a value given directly, and that one over the environment. -/
def lookup? (r : SettingsReading) (environment : List (String × String))
    (given : List (String × Value)) (name : String) : Option Value :=
  ((r.option? name).or (givenValue? given name)).or (r.environmentValue? environment name)

end SettingsReading

end SearchCriteria
