import SearchCriteria.Distinct
import SearchCriteria.Value.Equal
import SearchCriteria.Value.Hashable

/-! # Values as sequences, mappings and sets -/

namespace SearchCriteria

/-- What a value yields one by one: items, keys or characters. -/
def Value.elements? : Value → Option (List Value)
  | .list items | .tuple items | .set _ items => some items
  | .map entries => some (entries.map Prod.fst)
  | .text s => some (s.toList.map fun c => .text (String.singleton c))
  | _ => none

def Value.elements (v : Value) : Except Fault (List Value) :=
  match v.elements? with
  | some items => .ok items
  | none => .error (.notIterable v.kind)

namespace Mapping

def get? (mapping : Mapping) (key : Value) : Option Value :=
  Association.get? Value.sameKey key mapping

def put (mapping : Mapping) (key value : Value) : Mapping :=
  Association.put Value.sameKey key value mapping

/-- Put the entries of the second mapping over the first. -/
def overlay (mapping additions : Mapping) : Mapping :=
  Association.overlay Value.sameKey mapping additions

/-- Put an entry whose key has to be fit to be one. -/
def insert (mapping : Mapping) (key value : Value) : Except Fault Mapping := do
  key.requireHashable
  return mapping.put key value

/-- The entry that an element of a sequence stands for. -/
def entryOf (index : Nat) (element : Value) : Except Fault (Value × Value) :=
  match element.elements? with
  | none => .error (.entryNotSequence index)
  | some [key, value] => .ok (key, value)
  | some parts => .error (.entryLength index parts.length)

/-- Entries from a sequence of pairs, `index` being the place of the first. -/
def putPairs (mapping : Mapping) (index : Nat) : List Value → Except Fault Mapping
  | [] => .ok mapping
  | element :: rest => do
    let (key, value) ← entryOf index element
    putPairs (← mapping.insert key value) (index + 1) rest

/-- A mapping as it is, or the mapping that a sequence of pairs describes. -/
def ofValue : Value → Except Fault Mapping
  | .map entries => .ok entries
  | value => do putPairs [] 0 (← value.elements)

@[simp] theorem overlay_nil (mapping : Mapping) : mapping.overlay [] = mapping := rfl

theorem overlay_append (mapping xs ys : Mapping) :
    mapping.overlay (xs ++ ys) = (mapping.overlay xs).overlay ys :=
  Association.overlay_append mapping xs ys

end Mapping

/-- The distinct values, first occurrences in order; each has to be fit to be a member. -/
def Value.distinct (values : List Value) : Except Fault (List Value) := do
  values.forM Value.requireHashable
  return Distinct.addAll Value.sameKey [] values

/--
A value joins the members before it, unless it is there. An open set is looked up like a frozen one,
but cannot be added.
-/
def Value.admit (members : List Value) (v : Value) : Except Fault (List Value) :=
  match v with
  | .set false _ =>
    if members.any (·.sameKey v) then .ok members else .error (.unhashable v.kind)
  | _ => do
    v.requireHashable
    return Distinct.add Value.sameKey members v

/-- The ordered union of what two values yield. -/
def Value.union (existing additions : Value) : Except Fault Value := do
  let xs ← existing.elements
  let ys ← additions.elements
  return .list (← (xs ++ ys).foldlM Value.admit [])

/-- A set of the given members. -/
def Value.ofMembers (frozen : Bool) (members : List Value) : Except Fault Value := do
  return .set frozen (← Value.distinct members)

end SearchCriteria
