import SearchCriteria.Config
import SearchCriteria.Settings.Reading

/-! # Settings of the process -/

namespace SearchCriteria

/-- Settings of the process. Their modes are judged only when a config is made of them. -/
structure Settings where
  queryMode : Value := .text JoinMode.must.name
  filterMode : Value := .text JoinMode.and.name
  postFilterMode : Option Value := none
  logLevel : String := "INFO"

namespace Settings

def readMode (field : String) (v : Value) : Except ConfigIssue Value :=
  (Config.numberOrText? v).elim (.error (.notMode field)) .ok

def readOptional (field : String) : Value → Except ConfigIssue (Option Value)
  | .null => .ok none
  | v => (readMode field v).map some

def readText (field : String) : Value → Except ConfigIssue String
  | .text s => .ok s
  | _ => .error (.notText field)

/--
Settings as they are given or found, unknown ones ignored. A file of settings cannot be named: none
is read.
-/
def load (environment : List (String × String)) (init : Mapping) : Except Fault Settings := do
  if (init.getText? "_env_file").isSome then
    throw (.repeatedKeyword "crossquery.settings.CrossQuerySettings" "_env_file")
  let given ← init.named
  if (given.lookup "__pydantic_self__").isSome then
    throw (.repeatedArgument "BaseSettings.__init__" "__pydantic_self__")
  let value? := (← SettingsReading.ofGiven given).lookup? environment given
  let queryMode :=
    (value? "QUERY_MODE").elim (.ok (.text JoinMode.must.name)) (readMode "QUERY_MODE")
  let filterMode :=
    (value? "FILTER_MODE").elim (.ok (.text JoinMode.and.name)) (readMode "FILTER_MODE")
  let postFilterMode :=
    (value? "POST_FILTER_MODE").elim (.ok none) (readOptional "POST_FILTER_MODE")
  let logLevel := (value? "LOG_LEVEL").elim (.ok "INFO") (readText "LOG_LEVEL")
  match queryMode, filterMode, postFilterMode, logLevel with
  | .ok q, .ok f, .ok p, .ok l => return ⟨q, f, p, l⟩
  | q, f, p, l =>
    throw (.refusedConfig
      (Config.issue? q ++ Config.issue? f ++ Config.issue? p ++ Config.issue? l))

/-- The config that the settings ask for. -/
def config (s : Settings) : Except Fault Config :=
  Config.ofFields
    [Mapping.entry "query_mode" s.queryMode,
     Mapping.entry "filter_mode" s.filterMode,
     Mapping.entry "post_filter_mode" (s.postFilterMode.getD .null)]

end Settings

end SearchCriteria
