import SearchCriteria.Expression.Render

/-!
# Building nodes

Every node is checked when it is built, its field first. Operators keep groups flat, and undo a
negation or a marker instead of doubling it.
-/

namespace SearchCriteria

/-- Named values given to a call, each name text; the receiver's parameter is taken already. -/
def namedValues (call taken : String) (given : Mapping) : Except Fault Lookups := do
  let named ← given.named
  if named.any (·.1 == taken) then throw (.repeatedArgument call taken)
  return named

/-- The first two parts of a value that has exactly two. -/
def Value.unpackPair (v : Value) : Except Fault (Value × Value) :=
  match v.elements? with
  | none => .error (.notUnpackable v.kind)
  | some [] => .error (.tooFewParts 0)
  | some [_] => .error (.tooFewParts 1)
  | some [first, second] => .ok (first, second)
  | some _ => .error .tooManyParts

namespace Expression

def requireField : Value → Except Fault String
  | .text name => do
    requireName name
    return name
  | name => .error (.blankField name)

/-- Equality with a value; a list or a tuple asks for any of its items. -/
def buildTerm (field value : Value) : Except Fault Expression := do
  return .term (← requireField field) value.termValue

def buildPresent (field : Value) : Except Fault Expression := do
  return .present (← requireField field)

/-- The form of a pair. -/
def pairForm : Value → PairForm Value
  | .list _ => .list
  | .map [(_, p), (_, q)] => .map p q
  | .set frozen _ => .set frozen
  | _ => .tuple

/-- One end of a range; the pair may come in any form that yields two parts. -/
def readLimit (field : String) (pair : Value) : Except Fault (Limit Value) := do
  let (name, value) ← pair.unpackPair
  let bound ← match name with
    | .text s => (Bound.ofName? s).elim (.error (.unknownBound field name)) .ok
    | _ => .error (.unknownBound field name)
  requireLimit field bound value
  return ⟨bound, value, pairForm pair⟩

/-- A range has at least one end, each end a known name and a value. -/
def rangeOfPairs (field : String) (pairs : List Value) : Except Fault Expression := do
  if pairs.isEmpty then throw (.noBounds field)
  return .range field (← pairs.mapM (readLimit field))

def pairsOf (entries : Mapping) : List Value := entries.map fun (key, value) => .tuple [key, value]

/-- A range from a mapping of its ends or a sequence of pairs. -/
def buildRange (field ends : Value) : Except Fault Expression := do
  let name ← requireField field
  match ends with
  | .map entries => rangeOfPairs name (pairsOf entries)
  | ends => rangeOfPairs name (← ends.elements)

/-- A range from named ends. -/
def buildRangeNamed (field : Value) (ends : Mapping) : Except Fault Expression := do
  let named ← namedValues "range_" "field" ends
  let name ← requireField field
  rangeOfPairs name (named.map fun (key, value) => .tuple [.text key, value])

/-- A script; parameters given as a mapping are kept as pairs. -/
def buildScript (source params : Value) : Except Fault Expression :=
  match source with
  | .text s =>
    if Text.isBlank s then .error (.blankScript source)
    else match params with
      | .map entries => .ok (.script s (.tuple (pairsOf entries)))
      | params => .ok (.script s params)
  | _ => .error (.blankScript source)

/-- A script with a mapping of parameters, or none. -/
def buildScriptWith (source params : Value) : Except Fault Expression :=
  if !params.truthy then buildScript source (.tuple [])
  else match params with
    | .map _ => buildScript source params
    | _ => .error (.missingOperation params.kind "items")

def buildRaw : Value → Except Fault Expression
  | .map fragment => .ok (.raw fragment)
  | value => .error (.notFragment value.kind)

/-- Nodes stand for themselves, mappings for raw fragments. -/
def ofValue : Value → Except Fault Expression
  | .node e => .ok e
  | .map fragment => .ok (.raw fragment)
  | value => .error (.notNode value.kind)

def buildAnd (nodes : List Expression) : Except Fault Expression :=
  if nodes.isEmpty then .error (.noParts "And") else .ok (.and nodes)

def buildOr (nodes : List Expression) : Except Fault Expression :=
  if nodes.isEmpty then .error (.noParts "Or") else .ok (.or nodes)

def andOf (values : List Value) : Except Fault Expression := do
  buildAnd (← values.mapM ofValue)

def orOf (values : List Value) : Except Fault Expression := do
  buildOr (← values.mapM ofValue)

def notOf (value : Value) : Except Fault Expression := do
  return .not (← ofValue value)

def cachedOf (value : Value) : Except Fault Expression := do
  return .cached (← ofValue value)

/-- The conjunction of lookups, at least one. -/
def buildLookup (given : Mapping) : Except Fault Expression := do
  let lookups ← namedValues "Q.__init__" "self" given
  if lookups.isEmpty then throw .noLookups
  lookups.check
  return .lookup lookups

/-- The parts of a conjunction; any other node is its own only part. -/
def conjuncts : Expression → List Expression
  | .and nodes => nodes
  | e => [e]

def disjuncts : Expression → List Expression
  | .or nodes => nodes
  | e => [e]

/-- Both nodes hold. -/
def conjoin (a b : Expression) : Expression := .and (a.conjuncts ++ b.conjuncts)

/-- One of the nodes holds. -/
def disjoin (a b : Expression) : Expression := .or (a.disjuncts ++ b.disjuncts)

def conjoinValue (a : Expression) (b : Value) : Except Fault Expression := do
  return a.conjoin (← ofValue b)

def disjoinValue (a : Expression) (b : Value) : Except Fault Expression := do
  return a.disjoin (← ofValue b)

/-- The opposite of a node. -/
def negate : Expression → Expression
  | .not e => e
  | e => .not e

/-- Mark a node as cacheable, once. -/
def markCached : Expression → Expression
  | .cached e => .cached e
  | e => .cached e

@[simp] theorem conjuncts_conjoin (a b : Expression) :
    (a.conjoin b).conjuncts = a.conjuncts ++ b.conjuncts := rfl

@[simp] theorem disjuncts_disjoin (a b : Expression) :
    (a.disjoin b).disjuncts = a.disjuncts ++ b.disjuncts := rfl

@[simp] theorem negate_not (e : Expression) : negate (.not e) = e := rfl

@[simp] theorem markCached_markCached (e : Expression) :
    e.markCached.markCached = e.markCached := by
  cases e <;> rfl

end Expression

end SearchCriteria
