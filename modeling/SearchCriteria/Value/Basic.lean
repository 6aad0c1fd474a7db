import SearchCriteria.Number.Binary64

/-! # Document values and the expression nodes among them -/

namespace SearchCriteria

/-- The four ends a range can have. -/
inductive Bound where
  | gt | gte | lt | lte
deriving DecidableEq, Repr

namespace Bound

def name : Bound → String
  | .gt => "gt"
  | .gte => "gte"
  | .lt => "lt"
  | .lte => "lte"

def all : List Bound := [.gt, .gte, .lt, .lte]

def ofName? (s : String) : Option Bound := all.find? (·.name == s)

@[simp] theorem ofName?_name (b : Bound) : ofName? b.name = some b := by cases b <;> rfl

theorem name_of_ofName? {s : String} {b : Bound} (h : ofName? s = some b) : b.name = s := by
  simpa using List.find?_some h

theorem mem_all (b : Bound) : b ∈ all := by cases b <;> simp [all]

@[simp] theorem name_inj {b c : Bound} : b.name = c.name ↔ b = c := by
  cases b <;> cases c <;> simp [name]

end Bound

/--
How the pair of a bound and its value was given. A mapping and a set are read like a row; of a
mapping that takes the keys, and what stood under them is kept as well.
-/
inductive PairForm (α : Type) where
  | tuple
  | list
  | map (underBound underValue : α)
  | set (frozen : Bool)
deriving Repr

/-- One end of a range, and the form in which it was given. -/
structure Limit (α : Type) where
  bound : Bound
  value : α
  form : PairForm α
deriving Repr

mutual

/-- A value of a request document or of a patch. Mappings keep their insertion order. -/
inductive Value where
  | null
  | bool (b : Bool)
  | int (i : Int)
  | real (x : Binary64)
  | text (s : String)
  | list (items : List Value)
  | tuple (items : List Value)
  | map (entries : List (Value × Value))
  | set (frozen : Bool) (items : List Value)
  | node (e : Expression)

/--
A filter expression. A `term` on a tuple asks for any of its items; `lookup` is the conjunction that
its `field__operator` keys describe; `raw` is a fragment given as it is; `base` renders to nothing.
-/
inductive Expression where
  | base
  | term (field : String) (value : Value)
  | range (field : String) (limits : List (Limit Value))
  | present (field : String)
  | script (source : String) (params : Value)
  | and (nodes : List Expression)
  | or (nodes : List Expression)
  | not (node : Expression)
  | cached (node : Expression)
  | raw (fragment : List (Value × Value))
  | lookup (lookups : List (String × Value))

end

/-- The pair that a limit was given as. -/
def Limit.pair : Limit Value → Value
  | ⟨bound, value, .tuple⟩ => .tuple [.text bound.name, value]
  | ⟨bound, value, .list⟩ => .list [.text bound.name, value]
  | ⟨bound, value, .map p q⟩ => .map [(.text bound.name, p), (value, q)]
  | ⟨bound, value, .set frozen⟩ => .set frozen [.text bound.name, value]

/-- The entries of a mapping value; a rendered fragment is one. -/
abbrev Mapping := List (Value × Value)

namespace Mapping

/-- The entry of a text key. -/
def entry (key : String) (value : Value) : Value × Value := (.text key, value)

/-- A mapping with one text key. -/
def single (key : String) (value : Value) : Mapping := [entry key value]

end Mapping

namespace Expression

/-- The name of the kind of node. -/
def kind : Expression → String
  | .base => "Node"
  | .term .. => "Term"
  | .range .. => "Range"
  | .present _ => "Exists"
  | .script .. => "Script"
  | .and _ => "And"
  | .or _ => "Or"
  | .not _ => "Not"
  | .cached _ => "Cached"
  | .raw _ => "Raw"
  | .lookup _ => "Q"

end Expression

namespace Value

/-- The name of the kind of value, as messages give it. -/
def kind : Value → String
  | .null => "NoneType"
  | .bool _ => "bool"
  | .int _ => "int"
  | .real _ => "float"
  | .text _ => "str"
  | .list _ => "list"
  | .tuple _ => "tuple"
  | .map _ => "dict"
  | .set false _ => "set"
  | .set true _ => "frozenset"
  | .node e => e.kind

/-- Nothing, false, zero and everything empty count as absent; a node never does. -/
def truthy : Value → Bool
  | .null => false
  | .bool b => b
  | .int i => i != 0
  | .real x => !x.isZero
  | .text s => !s.isEmpty
  | .list items | .tuple items | .set _ items => !items.isEmpty
  | .map entries => !entries.isEmpty
  | .node _ => true

def isText (s : String) : Value → Bool
  | .text t => t == s
  | _ => false

/-- What a number or a truth value is worth. -/
def quantity? : Value → Option Quantity
  | .bool b => some (.finite (if b then 1 else 0))
  | .int i => some (.finite i)
  | .real x => some x.quantity
  | _ => none

@[simp] theorem truthy_map (entries : Mapping) :
    (Value.map entries).truthy = !entries.isEmpty := rfl

@[simp] theorem truthy_node (e : Expression) : (Value.node e).truthy = true := rfl

@[simp] theorem isText_text (s t : String) : isText s (.text t) = (t == s) := rfl

end Value

end SearchCriteria
