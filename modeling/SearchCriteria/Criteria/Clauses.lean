import SearchCriteria.Criteria.Basic

/-! # The clauses of a criteria, joined -/

namespace SearchCriteria

/-- The fragment of a clause: a node is rendered, a mapping stands for itself. -/
def Value.clauseFragment : Value → Except Fault Mapping
  | .node e => e.render
  | .map entries => .ok entries
  | v => .error (.notClause v.kind)

/-- The fragments of a list of clauses; null keeps its place. -/
def clauseFragments (clauses : List Value) : Except Fault (List Value) :=
  clauses.mapM fun
    | .null => .ok .null
    | v => do return .map (← v.clauseFragment)

/-- The fragments of the clauses that a value yields. -/
def clauseFragmentsOf (v : Value) : Except Fault (List Value) := do
  clauseFragments (← v.elements)

/-- Join the fragments that a value yields. -/
def Join.joinElements (side : JoinSide) (mode fragments : Value) : Except Fault (Option Value) := do
  join side mode (← fragments.elements)

namespace Criteria

def option? (c : Criteria) (name : String) : Option Value := c.options.getText? name

/-- The mode under an option, null if it is missing. -/
def mode (c : Criteria) (name : String) : Value := (c.option? name).getD .null

def joinedQuery (c : Criteria) : Except Fault (Option Value) := do
  Join.join .queries (c.mode "query_mode") (← clauseFragments c.queries)

def typeFragment (name : String) : Mapping :=
  Mapping.single "type" (.map (Mapping.single "value" (.text name)))

/-- Any of the types. -/
def joinedTypes (c : Criteria) : Except Fault (Option Value) :=
  Join.join .filters (.text JoinMode.or.name) (c.types.map fun name => .map (typeFragment name))

/-- Filters that all have to hold stay beside the types; under another mode they join first. -/
def filterParts (mode : Value) (fragments : List Value) : Except Fault (List Value) :=
  if mode.isText JoinMode.and.name then .ok fragments
  else do return (← Join.join .filters mode fragments).toList

/-- The types together with the filters. -/
def joinedFilter (c : Criteria) : Except Fault (Option Value) := do
  let fragments ← clauseFragments c.filters
  let mode := c.mode "filter_mode"
  -- the parts of the filters are joined before the types are looked at
  let parts ← filterParts mode fragments
  let types ← c.joinedTypes
  Join.join .filters (.text JoinMode.and.name) (types.toList ++ parts)

/-- The post filters have a mode of their own, or follow the filters. -/
def postFilterMode (c : Criteria) : Value :=
  (c.options.present? "post_filter_mode").getD (c.mode "filter_mode")

def joinedPostFilter (c : Criteria) : Except Fault (Option Value) := do
  Join.join .filters c.postFilterMode (← clauseFragments c.postFilters)

end Criteria

end SearchCriteria
