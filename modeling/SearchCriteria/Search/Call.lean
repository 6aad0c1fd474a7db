import SearchCriteria.Criteria.Clauses
import SearchCriteria.Message
import SearchCriteria.Number.Integral
import SearchCriteria.Search.Arguments

/-!
# Calls on a search

A call stands for one update of the criteria. Its own arguments are checked first: modes, numbers,
decay functions, and the filters of scoring functions.
-/

namespace SearchCriteria

inductive Call where
  | query (clauses : List Value)
  | filter (clauses : List Value)
  | postFilter (clauses : List Value)
  | queryMode (mode : Value)
  | filterMode (mode : Value)
  | postFilterMode (mode : Value)
  | boostMode (mode : Value)
  | scoreMode (mode : Value)
  | strategy (strategy : Value)
  | none
  | simple
  | types (names : List Value)
  | only (fields : List Value)
  | onlyExactly (fields : List Value)
  | order (specs : List Value)
  | reorder (specs : List Value)
  | limit (count : Value)
  | offset (count : Value)
  | request (options : Mapping)
  | facets (params : Value)
  | aggregations (params : Value)
  | suggest (params : Value)
  | scriptFields (params : Value)
  | boostFactor (factor filter : Value)
  | weight (value filter : Value)
  | randomScore (seed filter : Value)
  | scriptScore (script params filter : Value)
  | fieldValueFactor (settings filter : Value)
  | decay (function field origin scale offset decay filter : Value)

namespace Call

/-- The update that sets one option. -/
def setOption (name : String) (v : Value) : Criteria.Update :=
  { storage := .options, patch := .map (Mapping.single name v) }

/-- Set a join mode, which has to be valid. -/
def setMode (name : String) (v : Value) : Except Fault Criteria.Update :=
  match JoinMode.check v with
  | .ok mode => .ok (setOption name mode)
  | .error refusal => .error (.refusedOption name v refusal)

def setCount (name : String) (v : Value) : Except Fault Criteria.Update := do
  let count ← v.toInteger
  return { storage := .requestOptions, patch := .map (Mapping.single name (.int count)) }

/-- Add a scoring function, for the documents that its filter lets through if it has one. -/
def score (function : Mapping) (scope : Value) : Except Fault Criteria.Update := do
  let fragment ← match scope with
    | .null => pure Option.none
    | clause => some <$> clause.clauseFragment
  let complete := function.addSome "filter" (fragment.map .map)
  return { storage := .scores, patch := .list [.map complete] }

/-- Script and parameters of a scoring function. -/
def scriptScoreBody (script params : Value) : Except Fault Mapping := do
  let body := Mapping.single "script" script
  if params.truthy then return body.putText "params" (.map (← Mapping.ofValue params))
  else return body

/-- The decay functions by name. -/
def decayName? : Value → Option String
  | .text s => Fault.decayNames.find? (· == s)
  | _ => Option.none

/-- The parameters of a decay that are given. -/
def decayParams (origin scale shift rate : Value) : Mapping :=
  [Mapping.entry "origin" origin, Mapping.entry "scale" scale] ++
    (if shift matches .null then [] else [Mapping.entry "offset" shift]) ++
    (if rate matches .null then [] else [Mapping.entry "decay" rate])

def decayFunction (function field : Value) (params : Mapping) : Except Fault Mapping :=
  match decayName? function with
  | Option.none => .error (.unknownDecay function field)
  | some name => do
    field.requireHashable
    return Mapping.single name (.map [(field, .map params)])

/-- The update that a call stands for. -/
def update : Call → Except Fault Criteria.Update
  | .query clauses => .ok { storage := .queries, patch := .list clauses }
  | .filter clauses => .ok { storage := .filters, patch := .list clauses }
  | .postFilter clauses => .ok { storage := .postFilters, patch := .list clauses }
  | .queryMode mode => setMode "query_mode" mode
  | .filterMode mode => setMode "filter_mode" mode
  | .postFilterMode mode => setMode "post_filter_mode" mode
  | .boostMode mode => .ok (setOption "boost_mode" mode)
  | .scoreMode mode => .ok (setOption "score_mode" mode)
  | .strategy name => .ok (setOption "strategy" name)
  | .none => .ok (setOption "none" (.bool true))
  | .simple => .ok (setOption "simple" (.bool true))
  | .types names => .ok { storage := .types, patch := .list names }
  | .only fields => .ok { storage := .fields, patch := .list fields }
  | .onlyExactly fields => .ok { storage := .fields, patch := .list fields, purge := some true }
  | .order specs => .ok { storage := .sort, patch := .list specs }
  | .reorder specs => .ok { storage := .sort, patch := .list specs, purge := some true }
  | .limit count => setCount "size" count
  | .offset count => setCount "from" count
  | .request options => .ok { storage := .requestOptions, patch := .map options }
  | .facets params => .ok { storage := .facets, patch := params }
  | .aggregations params => .ok { storage := .aggregations, patch := params }
  | .suggest params => .ok { storage := .suggest, patch := params }
  | .scriptFields params => .ok { storage := .scriptFields, patch := params }
  | .boostFactor factor scope => score (Mapping.single "boost_factor" factor) scope
  | .weight value scope => score (Mapping.single "weight" value) scope
  | .randomScore seed scope =>
    score (Mapping.single "random_score" (.map (Mapping.single "seed" seed))) scope
  | .scriptScore script params scope => do
    score (Mapping.single "script_score" (.map (← scriptScoreBody script params))) scope
  | .fieldValueFactor settings scope => do
    score (Mapping.single "field_value_factor" (.map (← Mapping.ofValue settings))) scope
  | .decay function field origin scale shift rate scope => do
    score (← decayFunction function field (decayParams origin scale shift rate)) scope

/-- The parameters of a method. -/
def parameters (method : String) (required optional : List String) : Parameters :=
  { call := "Search." ++ method, required, optional }

/-- How positional and named arguments make a call. -/
abbrev Maker := List Value → Mapping → Except Fault Call

/-- One parameter and the call it makes. -/
def ofOne (method parameter : String) (make : Value → Call) : Maker := fun args named => do
  let values ← (parameters method [parameter] []).bind args named
  return make (values.getD 0 .null)

/-- A parameter and an optional filter, and the call they make. -/
def ofScore (method parameter : String) (make : Value → Value → Call) : Maker :=
  fun args named => do
    let values ← (parameters method [parameter] ["filter"]).bind args named
    return make (values.getD 0 .null) (values.getD 1 .null)

/-- Any number of arguments, none of them named. -/
def ofMany (method : String) (make : List Value → Call) : Maker := fun args named => do
  let _ ← (parameters method [] []).bind [] named
  return make args

/-- No argument. -/
def ofNothing (method : String) (call : Call) : Maker := fun args named => do
  let _ ← (parameters method [] []).bind args named
  return call

/-- Named arguments only. -/
def ofNamed (method : String) : Maker := fun args named => do
  let options ← namedValues ("Search." ++ method) "self" named
  let _ ← (parameters method [] []).bind args []
  return request (options.map fun (name, v) => Mapping.entry name v)

def ofScriptScore : Maker := fun args named => do
  let values ← (parameters "script_score" ["script"] ["params", "filter"]).bind args named
  return scriptScore (values.getD 0 .null) (values.getD 1 .null) (values.getD 2 .null)

def ofDecay : Maker := fun args named => do
  let values ← (parameters "decay" ["function", "field", "origin", "scale"]
    ["offset", "decay", "filter"]).bind args named
  return decay (values.getD 0 .null) (values.getD 1 .null) (values.getD 2 .null)
    (values.getD 3 .null) (values.getD 4 .null) (values.getD 5 .null) (values.getD 6 .null)

/-- Merging takes another search, and no value is one. -/
def ofMerge : Maker := fun args named => do
  let values ← (parameters "merge" ["other"] []).bind args named
  throw (.missingOperation (values.getD 0 .null).kind "criteria")

/-- A property is no method, whatever the arguments. -/
def ofProperty (kind : String) : Maker := fun _ _ => .error (.notCallable kind)

/-- What a search offers under a name. -/
def ofMethod (method : String) : Except Fault Maker :=
  match method with
  | "query" => .ok (ofMany method query)
  | "filter" => .ok (ofMany method filter)
  | "post_filter" => .ok (ofMany method postFilter)
  | "query_mode" => .ok (ofOne method "value" queryMode)
  | "filter_mode" => .ok (ofOne method "value" filterMode)
  | "post_filter_mode" => .ok (ofOne method "value" postFilterMode)
  | "boost_mode" => .ok (ofOne method "value" boostMode)
  | "score_mode" => .ok (ofOne method "value" scoreMode)
  | "strategy" => .ok (ofOne method "value" strategy)
  | "none" => .ok (ofNothing method none)
  | "simple" => .ok (ofNothing method simple)
  | "types" => .ok (ofMany method types)
  | "only" => .ok (ofMany method only)
  | "only_exactly" => .ok (ofMany method onlyExactly)
  | "order" => .ok (ofMany method order)
  | "reorder" => .ok (ofMany method reorder)
  | "limit" => .ok (ofOne method "value" limit)
  | "offset" => .ok (ofOne method "value" offset)
  | "request" => .ok (ofNamed method)
  | "facets" => .ok (ofOne method "params" facets)
  | "aggregations" | "aggs" => .ok (ofOne "aggregations" "params" aggregations)
  | "suggest" => .ok (ofOne method "params" suggest)
  | "script_fields" => .ok (ofOne method "params" scriptFields)
  | "boost_factor" => .ok (ofScore method "factor" boostFactor)
  | "weight" => .ok (ofScore method "value" weight)
  | "random_score" => .ok (ofScore method "seed" randomScore)
  | "script_score" => .ok ofScriptScore
  | "field_value_factor" => .ok (ofScore method "settings" fieldValueFactor)
  | "decay" => .ok ofDecay
  | "merge" => .ok ofMerge
  | "is_none" => .ok (ofProperty "bool")
  | "criteria" => .ok (ofProperty "Criteria")
  | _ => .error (.missingOperation "Search" method)

end Call

end SearchCriteria
