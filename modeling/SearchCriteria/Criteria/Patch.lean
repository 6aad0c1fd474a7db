import SearchCriteria.Expression.Render
import SearchCriteria.Text.Blank

/-!
# Patches

A patch counts by its leaves, the items of its nested lists and tuples. Clause patches drop blank
leaves, name patches drop blank names, and sort patches split mappings key by key.
-/

namespace SearchCriteria

/-- Blank values are null, false, blank text and empty collections; numbers never are. -/
def Value.isBlank : Value → Bool
  | .null | .bool false => true
  | .text s => Text.isBlank s
  | .list items | .tuple items | .set _ items => items.isEmpty
  | .map entries => entries.isEmpty
  | .bool true | .int _ | .real _ | .node _ => false

mutual

/-- The items of nested lists and tuples, in order; anything else is its own leaf. -/
def Value.leaves : Value → List Value
  | .list items | .tuple items => leavesOf items
  | .null => [.null]
  | .bool b => [.bool b]
  | .int i => [.int i]
  | .real x => [.real x]
  | .text s => [.text s]
  | .map entries => [.map entries]
  | .set frozen items => [.set frozen items]
  | .node e => [.node e]
termination_by structural v => v

def leavesOf : List Value → List Value
  | [] => []
  | v :: vs => v.leaves ++ leavesOf vs
termination_by structural vs => vs

end

@[simp] theorem leavesOf_append (xs ys : List Value) :
    leavesOf (xs ++ ys) = leavesOf xs ++ leavesOf ys := by
  induction xs with
  | nil => rfl
  | cons x xs ih => simp [leavesOf, ih]

namespace Patch

/-- The items of a list or tuple, nothing for null, and any other value alone. -/
def wrapped : Value → List Value
  | .null => []
  | .list items | .tuple items => items
  | v => [v]

/-- The leaves of a patch; null stands for no patch. -/
def leaves (patch : Value) : List Value := leavesOf (wrapped patch)

def compact (values : List Value) : List Value := values.filter (!·.isBlank)

/-- The leaves of what a value yields. -/
def flattened (v : Value) : Except Fault (List Value) := do return leavesOf (← v.elements)

/-- What a value yields, blanks aside. -/
def compacted (v : Value) : Except Fault (List Value) := do return compact (← v.elements)

/-- What a patch adds to a list of clauses or scoring functions. -/
def items (patch : Value) : List Value := compact (leaves patch)

/-- The name that a value gives; null gives an empty one. -/
def nameOf : Value → Except Fault String
  | .bool b => .ok (if b then "true" else "false")
  | .null => .ok ""
  | v => v.display

/-- What a patch adds to a list of names. -/
def names (patch : Value) : Except Fault (List String) := do
  return (← (leaves patch).mapM nameOf).filter (!Text.isBlank ·)

/-- A mapping asks for one sort key after the other. -/
def sortKeys : Value → List Value
  | .map entries => entries.map fun entry => .map [entry]
  | v => [v]

/-- What a patch adds to the sort order. -/
def sortSpecs (patch : Value) : List Value := (leaves patch).flatMap sortKeys

@[simp] theorem leaves_null : leaves .null = [] := rfl

@[simp] theorem leaves_list (xs : List Value) : leaves (.list xs) = leavesOf xs := rfl

@[simp] theorem leaves_tuple (xs : List Value) : leaves (.tuple xs) = leavesOf xs := rfl

@[simp] theorem compact_append (xs ys : List Value) :
    compact (xs ++ ys) = compact xs ++ compact ys := List.filter_append ..

theorem items_append (xs ys : List Value) :
    items (.list (xs ++ ys)) = items (.list xs) ++ items (.list ys) := by
  simp [items]

theorem sortSpecs_append (xs ys : List Value) :
    sortSpecs (.list (xs ++ ys)) = sortSpecs (.list xs) ++ sortSpecs (.list ys) := by
  simp [sortSpecs]

@[simp] theorem nameOf_text (s : String) : nameOf (.text s) = .ok s := rfl

end Patch

end SearchCriteria
