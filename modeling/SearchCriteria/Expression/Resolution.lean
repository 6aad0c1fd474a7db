import SearchCriteria.Expression.Build

/-!
# Lookups resolved in two passes

The first pass reads one lookup after the other. A range is placed at the first end given for its
field, with that end alone, and a table takes down all the ends by field. The second pass builds
every range anew from the table.
-/

namespace SearchCriteria

/-- The nodes so far, and the ends given for each field that has a range among them. -/
structure Resolution where
  nodes : List Expression := []
  ends : List (String × List (Bound × Value)) := []

namespace Resolution

/-- What the table holds for a field. -/
def endsOf (r : Resolution) (field : String) : List (Bound × Value) :=
  (Association.get? (· == ·) field r.ends).getD []

def isPlaced (r : Resolution) (field : String) : Bool :=
  (Association.get? (· == ·) field r.ends).isSome

/-- One more node, behind the others. -/
def push (r : Resolution) (e : Expression) : Resolution := { r with nodes := r.nodes ++ [e] }

/-- Take down an end; one that was given before has the later value. -/
def note (r : Resolution) (field : String) (bound : Bound) (value : Value) : Resolution :=
  let ends := Association.put (· == ·) bound value (r.endsOf field)
  { r with ends := Association.put (· == ·) field ends r.ends }

/-- The range with the given ends. -/
def range (field : String) (ends : List (Bound × Value)) : Except Fault Expression :=
  Expression.buildRange (.text field)
    (.tuple (ends.map fun (bound, value) => .tuple [.text bound.name, value]))

/-- Make a range for the field, unless it has one. -/
def place (r : Resolution) (field : String) (bound : Bound) (value : Value) :
    Except Fault Resolution :=
  if r.isPlaced field then .ok r
  else do return r.push (← range field [(bound, value)])

/-- The first pass, at one lookup. -/
def read (r : Resolution) : String × Value → Except Fault Resolution
  | (key, value) =>
    match LookupKey.read key with
    | (field, .bound bound) => do
      return (← r.place field bound value).note field bound value
    | (field, .oneOf) => do
      Lookups.requireSequence .oneOf field value
      return r.push (← Expression.buildTerm (.text field) value)
    | (field, .noneOf) => do
      Lookups.requireSequence .noneOf field value
      return r.push (.not (← Expression.buildTerm (.text field) value))
    | (field, .present) => do
      Lookups.requireBool field value
      let node ← Expression.buildPresent (.text field)
      return r.push (if value.truthy then node else .not node)
    | (field, .ne) => do return r.push (.not (← Expression.buildTerm (.text field) value))
    | (field, .eq) => do return r.push (← Expression.buildTerm (.text field) value)

/-- The second pass, at one node. -/
def complete (r : Resolution) : Expression → Except Fault Expression
  | .range field _ => range field (r.endsOf field)
  | node => .ok node

end Resolution

/-- The nodes of lookups. -/
def Lookups.resolve (lookups : Lookups) : Except Fault (List Expression) := do
  let r ← lookups.foldlM Resolution.read {}
  r.nodes.mapM r.complete

/-- The lookups that a node is made of and the nodes that they resolve to, from named values. -/
def Expression.resolveLookup (given : Mapping) : Except Fault (Lookups × List Expression) := do
  let lookups ← namedValues "Q.__init__" "self" given
  if lookups.isEmpty then throw .noLookups
  return (lookups, ← lookups.resolve)

end SearchCriteria
