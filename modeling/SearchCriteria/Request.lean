import SearchCriteria.Criteria.Clauses

/-!
# Request documents

A compiled request holds the joined query and filter, then the sections of the criteria in a fixed
order; scoring functions wrap the query, and request options have the last word.
-/

namespace SearchCriteria.Request

/-- `{"filtered": {"query": query, "filter": filter}}`, with a strategy if there is one. -/
def filtered (query filter : Value) (strategy : Option String) : Mapping :=
  Mapping.single "filtered" (.map
    ([Mapping.entry "query" query, Mapping.entry "filter" filter] ++
      (strategy.map fun s => Mapping.entry "strategy" (.text s)).toList))

/-- A query and a filter fold into one query; either alone stands for itself. -/
def base (query filter strategy : Option Value) : Except Fault Mapping :=
  match query, filter with
  | some q, some f => do
    let text ← (strategy.filter Value.truthy).mapM Value.display
    return Mapping.single "query" (.map (filtered q f text))
  | some q, none => .ok (Mapping.single "query" q)
  | none, some f => .ok (Mapping.single "filter" f)
  | none, none => .ok []

/-- The base of a body, null standing for a missing part. -/
def baseValue (query filter strategy : Value) : Except Fault Mapping :=
  let given := fun (v : Value) => if v matches .null then none else some v
  base (given query) (given filter) (given strategy)

/-- The scored query, with the modes that the options set. -/
def functionScore (scores : List Value) (options : Mapping) (query filter : Option Value) :
    Mapping :=
  Mapping.single "function_score" (.map
    (((((Mapping.single "functions" (.list scores)).addSome "boost_mode"
      (options.truthy? "boost_mode")).addSome "score_mode"
      (options.truthy? "score_mode")).addSome "query" query).addSome "filter" filter))

/-- Wrap the query and filter of a body into a scored query, placed at its end. -/
def boost (body : Mapping) (scores : List Value) (options : Mapping) : Mapping :=
  if scores.isEmpty then body
  else
    let rest := (body.eraseText "query").eraseText "filter"
    let scored := match body.present? "query", body.present? "filter" with
      | some q, some f => functionScore scores options (some (.map (filtered q f none))) none
      | q, f => functionScore scores options q f
    rest.putText "query" (.map scored)

/-- A body has to be a mapping, from which query and filter can be taken. -/
def bodyOf : Value → Except Fault Mapping
  | .map body => .ok body
  | .list items => .error (.removalByKey (Value.list items).kind)
  | .set false items => .error (.removalByKey (Value.set false items).kind)
  | v => .error (.missingOperation v.kind "pop")

def optionsOf : Value → Except Fault Mapping
  | .map options => .ok options
  | v => .error (.missingOperation v.kind "get")

/-- Boosting of a body, a row of scores and options that are given as values. -/
def boostValue (body scores options : Value) : Except Fault Value := do
  if !scores.truthy then return body
  let body ← bodyOf body
  let functions ← scores.elements
  return .map (boost body functions (← optionsOf options))

/-- The content of a storage, if it holds anything. -/
def section? (c : Criteria) (s : Storage) : Option Value :=
  if c.holds s then some (c.content s) else none

/-- The sections after the query and the filter. -/
def attach (c : Criteria) (postFilter : Option Value) (body : Mapping) : Mapping :=
  body.addSome "post_filter" postFilter
    |>.addSome "facets" (section? c .facets)
    |>.addSome "aggregations" (section? c .aggregations)
    |>.addSome "suggest" (section? c .suggest)
    |>.addSome "sort" (section? c .sort)
    |>.addSome "_source" (section? c .fields)
    |>.addSome "script_fields" (section? c .scriptFields)

/-- A criteria compiles to query and filter only, if it is simple. -/
def isSimple (c : Criteria) : Bool := (c.options.truthy? "simple").isSome

def matchAll : Mapping := Mapping.single "query" (.map (Mapping.single "match_all" (.map [])))

/-- The body of the request. -/
def body (c : Criteria) : Except Fault Mapping := do
  let query ← c.joinedQuery
  let filter ← c.joinedFilter
  let start ← base query filter (c.option? "strategy")
  if isSimple c then return if start.isEmpty then matchAll else start
  let postFilter ← c.joinedPostFilter
  return (boost (attach c postFilter start) c.scores c.options).overlay c.requestOptions

def document (body : Mapping) : Mapping := Mapping.single "body" (.map body)

end SearchCriteria.Request

namespace SearchCriteria.Criteria

/-- The request document. -/
def compile (c : Criteria) : Except Fault Mapping := do
  return Request.document (← Request.body c)

end SearchCriteria.Criteria
