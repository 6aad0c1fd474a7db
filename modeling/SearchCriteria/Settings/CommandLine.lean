import SearchCriteria.Value.Basic

/-! # Options on a command line -/

namespace SearchCriteria

namespace CommandLine

/-- The name of an option and the value after its equals sign, if it has one. -/
def option? (argument : String) : Option (String × Option String) :=
  match argument.toList with
  | '-' :: '-' :: text =>
    let name := String.ofList (text.takeWhile (· != '='))
    match text.dropWhile (· != '=') with
    | [] => some (name, none)
    | _ :: value => some (name, some (String.ofList value))
  | _ => none

/-- The options in order. One without an equals sign takes the next argument for its value. -/
def options : List String → List (String × String)
  | [] => []
  | [argument] =>
    match option? argument with
    | some (name, some value) => [(name, value)]
    | _ => []
  | argument :: next :: rest =>
    match option? argument with
    | some (name, some value) => (name, value) :: options (next :: rest)
    | some (name, none) => (name, next) :: options rest
    | none => options (next :: rest)

end CommandLine

end SearchCriteria
