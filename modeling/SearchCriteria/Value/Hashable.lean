import SearchCriteria.Fault
import SearchCriteria.Value.Literal

/-! # Values that can be members of a set -/

namespace SearchCriteria

mutual

/--
The first thing that bars a value from being a key or a member: a list, a mapping or an open set,
also inside tuples and nodes. A raw node is hashed by its literal text, so it needs one.
-/
def Value.unhashable? : Value → Option Fault
  | .list items => some (.unhashable (Value.list items).kind)
  | .map entries => some (.unhashable (Value.map entries).kind)
  | .set false items => some (.unhashable (Value.set false items).kind)
  | .tuple items => unhashableItem? items
  | .node e => e.unhashable?
  | .null | .bool _ | .int _ | .real _ | .text _ | .set true _ => none
termination_by structural v => v

def Expression.unhashable? : Expression → Option Fault
  | .base | .present _ => none
  | .raw fragment => if (Value.map fragment).literal?.isSome then none else some .unwritable
  | .term _ value => value.unhashable?
  | .range _ limits => unhashableLimit? limits
  | .script _ params => params.unhashable?
  | .and nodes | .or nodes => unhashableNode? nodes
  | .not node | .cached node => node.unhashable?
  | .lookup lookups => unhashableLookup? lookups
termination_by structural e => e

def unhashableItem? : List Value → Option Fault
  | [] => none
  | v :: vs => v.unhashable?.or (unhashableItem? vs)
termination_by structural vs => vs

def Limit.unhashable? : Limit Value → Option Fault
  | ⟨_, value, .tuple⟩ => value.unhashable?
  | ⟨_, _, .list⟩ => some (.unhashable (Value.list []).kind)
  | ⟨_, _, .map _ _⟩ => some (.unhashable (Value.map []).kind)
  | ⟨_, _, .set false⟩ => some (.unhashable (Value.set false []).kind)
  | ⟨_, _, .set true⟩ => none
termination_by structural l => l

def unhashableLimit? : List (Limit Value) → Option Fault
  | [] => none
  | l :: limits => l.unhashable?.or (unhashableLimit? limits)
termination_by structural ls => ls

def unhashableNode? : List Expression → Option Fault
  | [] => none
  | e :: es => e.unhashable?.or (unhashableNode? es)
termination_by structural es => es

def unhashableLookup? : List (String × Value) → Option Fault
  | [] => none
  | (_, value) :: lookups => value.unhashable?.or (unhashableLookup? lookups)
termination_by structural ls => ls

end

def Value.requireHashable (v : Value) : Except Fault Unit :=
  match v.unhashable? with
  | some fault => .error fault
  | none => .ok ()

theorem Value.requireHashable_eq_ok_iff {v : Value} :
    v.requireHashable = .ok () ↔ v.unhashable? = none := by
  unfold Value.requireHashable
  split <;> simp [*]

end SearchCriteria
