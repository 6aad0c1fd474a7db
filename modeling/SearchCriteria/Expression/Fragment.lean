import SearchCriteria.Join.Wrapper
import SearchCriteria.Value.Mapping

/-! # Fragments of single nodes and their combinations -/

namespace SearchCriteria.Fragment

/-- Equality with a value, or with any item of a tuple. -/
def term (field : String) : Value → Mapping
  | .tuple items => Mapping.single "terms" (.map (Mapping.single field (.list items)))
  | value => Mapping.single "term" (.map (Mapping.single field value))

/-- The ends of a range by name: a repeated one keeps its place and takes the last value. -/
def limits (ls : List (Limit Value)) : Mapping :=
  (Association.ofList (· == ·) (ls.map fun l => (l.bound, l.value))).map fun (bound, value) =>
    Mapping.entry bound.name value

def range (field : String) (ls : List (Limit Value)) : Mapping :=
  Mapping.single "range" (.map (Mapping.single field (.map (limits ls))))

def present (field : String) : Mapping :=
  Mapping.single "exists" (.map (Mapping.single "field" (.text field)))

def negation (fragment : Mapping) : Mapping := Mapping.single "not" (.map fragment)

/-- The key that marks a fragment as cacheable. -/
def cacheKey : String := "_cache"

/-- A cacheable negation keeps the marker beside the negated filter. -/
def cachedNegation (fragment : Mapping) : Mapping :=
  [Mapping.entry "not" (.map (Mapping.single "filter" (.map fragment))),
   Mapping.entry cacheKey (.bool true)]

/-- Mark a fragment: inside the body of its only key, or beside its keys. -/
def marked : Mapping → Mapping
  | [(key, .map body)] => [(key, .map (Mapping.putText body cacheKey (.bool true)))]
  | fragment => fragment.putText cacheKey (.bool true)

/-- Filters under a named group; a lone one stands for itself, empty ones do not count. -/
def group (mode : JoinMode) (fragments : List Mapping) : Mapping :=
  match Joined.of false (fragments.filter (!·.isEmpty)) with
  | .nothing => []
  | .lone fragment => fragment
  | .several fragments => Join.groupOf .filters mode.name (fragments.map .map)

def allOf (fragments : List Mapping) : Mapping := group .and fragments

def anyOf (fragments : List Mapping) : Mapping := group .or fragments

@[simp] theorem group_nil (mode : JoinMode) : group mode [] = [] := rfl

theorem marked_ne_nil (fragment : Mapping) : marked fragment ≠ [] := by
  unfold marked
  split
  · simp
  · exact Mapping.putText_ne_nil _ _ _

end SearchCriteria.Fragment
