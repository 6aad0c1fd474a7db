import SearchCriteria.Request

/-! # Debug records and log levels -/

namespace SearchCriteria

structure LogRecord where
  source : String
  level : String
  text : String
deriving DecidableEq, Repr

namespace LogRecord

def debug (source text : String) : LogRecord := ⟨source, "DEBUG", text⟩

/-- A record of names, if they can be written. -/
def ofNames (source text : String) (names : List Value) : List LogRecord :=
  ((Value.list names).literal?.map fun shown => debug source (text ++ shown)).toList

/-- What is recorded once a merge is done. -/
def ofMerge (merged : Criteria) : List LogRecord :=
  ofNames "crossquery.Criteria" "Merged criteria, storages now present: "
    (merged.present.map fun s => .text s.name)

def wrapped (count : Nat) : LogRecord :=
  debug "crossquery.SearchRequestCompiler"
    ("Wrapped query into function_score with " ++ toString count ++ " functions")

def compiled (body : Mapping) : List LogRecord :=
  ofNames "crossquery.SearchRequestCompiler" "Compiled request body with keys: "
    (body.map Prod.fst)

/-- What is recorded when a criteria compiles to a body; nothing for a simple one. -/
def ofCompile (c : Criteria) : List LogRecord :=
  match Request.body c with
  | .ok body =>
    if Request.isSimple c then []
    else (if c.scores.isEmpty then [] else [wrapped c.scores.length]) ++ compiled body
  | .error _ => []

end LogRecord

/-- Capital letters; the dotless i and the long s have plain ones. -/
def upper (c : Char) : Char :=
  if c = 'ı' then 'I' else if c = 'ſ' then 'S' else c.toUpper

/-- The level of a name, that of `INFO` for unset and unknown ones. -/
def resolveLevel (name : Option String) : Nat :=
  match String.ofList ((name.getD "").toList.map upper) with
  | "CRITICAL" | "FATAL" => 50
  | "ERROR" => 40
  | "WARNING" | "WARN" => 30
  | "INFO" => 20
  | "DEBUG" => 10
  | "NOTSET" => 0
  | _ => 20

end SearchCriteria
