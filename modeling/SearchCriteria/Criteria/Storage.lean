/-! # The storages of a criteria -/

namespace SearchCriteria

/-- Seven list storages, then six map storages, in the order they are kept and shown. -/
inductive Storage where
  | queries | filters | postFilters | sort | fields | types | scores
  | options | requestOptions | facets | aggregations | suggest | scriptFields
deriving DecidableEq, Repr

namespace Storage

def name : Storage → String
  | .queries => "queries"
  | .filters => "filters"
  | .postFilters => "post_filters"
  | .sort => "sort"
  | .fields => "fields"
  | .types => "types"
  | .scores => "scores"
  | .options => "options"
  | .requestOptions => "request_options"
  | .facets => "facets"
  | .aggregations => "aggregations"
  | .suggest => "suggest"
  | .scriptFields => "script_fields"

def all : List Storage :=
  [.queries, .filters, .postFilters, .sort, .fields, .types, .scores,
   .options, .requestOptions, .facets, .aggregations, .suggest, .scriptFields]

def ofName? (s : String) : Option Storage := all.find? (·.name == s)

/-- A storage whose update can replace what it holds. -/
def replaceable : Storage → Bool
  | .sort | .fields | .types => true
  | _ => false

theorem mem_all (s : Storage) : s ∈ all := by cases s <;> simp [all]

@[simp] theorem ofName?_name (s : Storage) : ofName? s.name = some s := by cases s <;> rfl

end Storage

end SearchCriteria
