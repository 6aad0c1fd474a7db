import SearchCriteria.Expression.Lookup
import SearchCriteria.Number.Numeral
import SearchCriteria.Number.Shortest
import SearchCriteria.Text.Quoted

/-! # The literal text of values and nodes -/

namespace SearchCriteria

/-- Items between commas. -/
def commaSeparated (items : List String) : String := ", ".intercalate items

/-- A tuple of one item keeps a comma, so that it is not read as a bracketed item. -/
def tupleText : List String → String
  | [item] => "(" ++ item ++ ",)"
  | items => "(" ++ commaSeparated items ++ ")"

def listText (items : List String) : String := "[" ++ commaSeparated items ++ "]"

def braced (items : List String) : String := "\x7b" ++ commaSeparated items ++ "\x7d"

/-- An empty set has no braces of its own. -/
def setText (frozen : Bool) (items : List String) : String :=
  match frozen, items with
  | false, [] => "set()"
  | true, [] => "frozenset()"
  | false, items => braced items
  | true, items => "frozenset(" ++ braced items ++ ")"

def boolText (b : Bool) : String := if b then "True" else "False"

mutual

/-- The literal text of a value, given that of lookup nodes; no integer in it may be too long. -/
def Value.literalWith (ofLookups : Lookups → Option String) : Value → Option String
  | .null => some "None"
  | .bool b => some (boolText b)
  | .int i => Numeral.write? i
  | .real x => some x.text
  | .text s => some (Text.quoted s)
  | .list items => (literalItems ofLookups items).map listText
  | .tuple items => (literalItems ofLookups items).map tupleText
  | .map entries => (literalEntries ofLookups entries).map braced
  | .set frozen items => (literalItems ofLookups items).map (setText frozen)
  | .node e => e.literalWith ofLookups
termination_by structural v => v

def Expression.literalWith (ofLookups : Lookups → Option String) : Expression → Option String
  | .base => some "Node()"
  | .term field value => do
    return "Term(field=" ++ Text.quoted field ++ ", value=" ++ (← value.literalWith ofLookups) ++ ")"
  | .range field limits => do
    return "Range(field=" ++ Text.quoted field ++ ", bounds=" ++
      tupleText (← literalLimits ofLookups limits) ++ ")"
  | .present field => some ("Exists(field=" ++ Text.quoted field ++ ")")
  | .script source params => do
    return "Script(source=" ++ Text.quoted source ++ ", params=" ++
      (← params.literalWith ofLookups) ++ ")"
  | .and nodes => do return "And(nodes=" ++ tupleText (← literalNodes ofLookups nodes) ++ ")"
  | .or nodes => do return "Or(nodes=" ++ tupleText (← literalNodes ofLookups nodes) ++ ")"
  | .not node => do return "Not(node=" ++ (← node.literalWith ofLookups) ++ ")"
  | .cached node => do return "Cached(node=" ++ (← node.literalWith ofLookups) ++ ")"
  | .raw fragment => do
    return "Raw(fragment=" ++ braced (← literalEntries ofLookups fragment) ++ ")"
  | .lookup lookups => ofLookups lookups
termination_by structural e => e

def literalItems (ofLookups : Lookups → Option String) : List Value → Option (List String)
  | [] => some []
  | v :: vs => do return (← v.literalWith ofLookups) :: (← literalItems ofLookups vs)
termination_by structural vs => vs

def literalEntries (ofLookups : Lookups → Option String) :
    List (Value × Value) → Option (List String)
  | [] => some []
  | (key, value) :: entries => do
    let entry := (← key.literalWith ofLookups) ++ ": " ++ (← value.literalWith ofLookups)
    return entry :: (← literalEntries ofLookups entries)
termination_by structural entries => entries

def Limit.literalWith (ofLookups : Lookups → Option String) : Limit Value → Option String
  | ⟨bound, value, .tuple⟩ => do
    return tupleText [Text.quoted bound.name, ← value.literalWith ofLookups]
  | ⟨bound, value, .list⟩ => do
    return listText [Text.quoted bound.name, ← value.literalWith ofLookups]
  | ⟨bound, value, .map p q⟩ => do
    let first := Text.quoted bound.name ++ ": " ++ (← p.literalWith ofLookups)
    return braced [first, (← value.literalWith ofLookups) ++ ": " ++ (← q.literalWith ofLookups)]
  | ⟨bound, value, .set frozen⟩ => do
    return setText frozen [Text.quoted bound.name, ← value.literalWith ofLookups]
termination_by structural l => l

def literalLimits (ofLookups : Lookups → Option String) :
    List (Limit Value) → Option (List String)
  | [] => some []
  | l :: limits => do return (← l.literalWith ofLookups) :: (← literalLimits ofLookups limits)
termination_by structural limits => limits

def literalNodes (ofLookups : Lookups → Option String) : List Expression → Option (List String)
  | [] => some []
  | e :: es => do return (← e.literalWith ofLookups) :: (← literalNodes ofLookups es)
termination_by structural es => es

end

mutual

/-- How deep lookup nodes are nested in a value. -/
def Value.lookupDepth : Value → Nat
  | .list items | .tuple items | .set _ items => itemsDepth items
  | .map entries => entriesDepth entries
  | .node e => e.lookupDepth
  | .null | .bool _ | .int _ | .real _ | .text _ => 0
termination_by structural v => v

def Expression.lookupDepth : Expression → Nat
  | .base | .present _ => 0
  | .term _ value | .script _ value => value.lookupDepth
  | .range _ limits => limitsDepth limits
  | .and nodes | .or nodes => nodesDepth nodes
  | .not node | .cached node => node.lookupDepth
  | .raw fragment => entriesDepth fragment
  | .lookup lookups => lookupsDepth lookups + 1
termination_by structural e => e

def itemsDepth : List Value → Nat
  | [] => 0
  | v :: vs => max v.lookupDepth (itemsDepth vs)
termination_by structural vs => vs

def entriesDepth : List (Value × Value) → Nat
  | [] => 0
  | (key, value) :: entries =>
    max (max key.lookupDepth value.lookupDepth) (entriesDepth entries)
termination_by structural entries => entries

def Limit.lookupDepth : Limit Value → Nat
  | ⟨_, value, .map p q⟩ => max (max p.lookupDepth value.lookupDepth) q.lookupDepth
  | ⟨_, value, .tuple⟩ | ⟨_, value, .list⟩ | ⟨_, value, .set _⟩ => value.lookupDepth
termination_by structural l => l

def limitsDepth : List (Limit Value) → Nat
  | [] => 0
  | l :: limits => max l.lookupDepth (limitsDepth limits)
termination_by structural limits => limits

def nodesDepth : List Expression → Nat
  | [] => 0
  | e :: es => max e.lookupDepth (nodesDepth es)
termination_by structural es => es

def lookupsDepth : List (String × Value) → Nat
  | [] => 0
  | (_, value) :: lookups => max value.lookupDepth (lookupsDepth lookups)
termination_by structural lookups => lookups

end

/-- Literal text in which lookup nodes show their fragments, up to a depth of nesting. -/
def Value.literalUpTo : Nat → Value → Option String
  | 0 => Value.literalWith fun _ => some ""
  | depth + 1 => Value.literalWith fun lookups => do
    return "<Q: " ++ (← Value.literalUpTo depth (.map lookups.fragment)) ++ ">"

/--
The literal text of a value: a lookup node shows its fragment, other nodes their parts. There is
none if an integer that shows is too long to be written.
-/
def Value.literal? (v : Value) : Option String := v.literalUpTo v.lookupDepth

namespace Value

@[simp] theorem literal?_null : literal? .null = some "None" := rfl

@[simp] theorem literal?_text (s : String) : literal? (.text s) = some (Text.quoted s) := rfl

@[simp] theorem literal?_bool (b : Bool) : literal? (.bool b) = some (boolText b) := rfl

@[simp] theorem literal?_int (i : Int) : literal? (.int i) = Numeral.write? i := rfl

@[simp] theorem literal?_real (x : Binary64) : literal? (.real x) = some x.text := rfl

end Value

end SearchCriteria
