import SearchCriteria.Join.Wrapper
import SearchCriteria.Value.Hashable

/-!
# Joining clauses

Nothing joins to nothing, a lone clause stands for itself, and more are wrapped under a mode. Empty
clauses do not count.
-/

namespace SearchCriteria.Join

/-- A mode is looked up among the names; an open set stands for a frozen one there. -/
def requireMember : Value → Except Fault Unit
  | .set _ _ => .ok ()
  | mode => mode.requireHashable

/--
The wrapper that a mode asks for. Only queries have a best one: a filter mode of that name, or a
fraction, is a number of clauses like any other value.
-/
def wrap (side : JoinSide) (mode : Value) (clauses : List Value) : Except Fault Mapping :=
  match JoinMode.ofValue? mode, side with
  | some .and, _ => .ok (groupOf side JoinMode.and.name clauses)
  | some .or, _ => .ok (groupOf side JoinMode.or.name clauses)
  | some .must, _ => .ok (boolOf JoinMode.must.name clauses)
  | some .should, _ => .ok (boolOf JoinMode.should.name clauses)
  | some .mustNot, _ => .ok (boolOf JoinMode.mustNot.name clauses)
  | some .disMax, .queries => .ok (bestOf none clauses)
  | some .disMax, .filters => .ok (atLeast mode clauses)
  | none, _ => do
    requireMember mode
    match mode, side with
    | .real _, .queries => return bestOf (some mode) clauses
    | _, _ => return atLeast mode clauses

/-- The clauses that count. -/
def present (fragments : List Value) : List Value := fragments.filter Value.truthy

/-- Join fragments under a mode. A lone negated clause keeps its wrapper. -/
def join (side : JoinSide) (mode : Value) (fragments : List Value) :
    Except Fault (Option Value) :=
  match Joined.of (mode.isText JoinMode.mustNot.name) (present fragments) with
  | .nothing => .ok none
  | .lone fragment => .ok (some fragment)
  | .several fragments => (wrap side mode fragments).map fun m => some (.map m)

@[simp] theorem join_nil (side : JoinSide) (mode : Value) : join side mode [] = .ok none := rfl

end SearchCriteria.Join
