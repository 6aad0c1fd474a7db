import SearchCriteria.Value.Basic

/-! # Join modes and the wrappers of joined clauses -/

namespace SearchCriteria

/-- The named join modes. -/
inductive JoinMode where
  | and | or | must | should | mustNot | disMax
deriving DecidableEq, Repr

namespace JoinMode

def name : JoinMode → String
  | .and => "and"
  | .or => "or"
  | .must => "must"
  | .should => "should"
  | .mustNot => "must_not"
  | .disMax => "dis_max"

def all : List JoinMode := [.and, .or, .must, .should, .mustNot, .disMax]

def ofName? (s : String) : Option JoinMode := all.find? (·.name == s)

/-- The mode that a value names, exactly. -/
def ofValue? : Value → Option JoinMode
  | .text s => ofName? s
  | _ => none

theorem mem_all (m : JoinMode) : m ∈ all := by cases m <;> simp [all]

@[simp] theorem ofName?_name (m : JoinMode) : ofName? m.name = some m := by cases m <;> rfl

@[simp] theorem ofValue?_name (m : JoinMode) : ofValue? (.text m.name) = some m := ofName?_name m

end JoinMode

/-- What is left to do with a list of clauses. -/
inductive Joined (α : Type) where
  | nothing
  | lone (clause : α)
  | several (clauses : List α)

/-- A lone clause needs no wrapper, unless the wrapper carries a meaning of its own. -/
def Joined.of {α : Type} (keepsLone : Bool) : List α → Joined α
  | [] => .nothing
  | [clause] => if keepsLone then .several [clause] else .lone clause
  | clauses => .several clauses

/-- Scoring clauses and filtering clauses are joined alike, under different keys. -/
inductive JoinSide where
  | queries | filters
deriving DecidableEq, Repr

namespace JoinSide

def name : JoinSide → String
  | .queries => "queries"
  | .filters => "filters"

def ofName? (s : String) : Option JoinSide := [queries, filters].find? (·.name == s)

end JoinSide

namespace Join

/-- `{"bool": {key: clauses}}` -/
def boolOf (key : String) (clauses : List Value) : Mapping :=
  Mapping.single "bool" (.map (Mapping.single key (.list clauses)))

/-- Some of the clauses, as many as the mode asks for. -/
def atLeast (mode : Value) (clauses : List Value) : Mapping :=
  Mapping.single "bool" (.map
    [Mapping.entry "should" (.list clauses), Mapping.entry "minimum_should_match" mode])

/-- The best of the queries, the others weighing in by the tie breaker. -/
def bestOf (tieBreaker : Option Value) (queries : List Value) : Mapping :=
  Mapping.single "dis_max" (.map (Mapping.entry "queries" (.list queries) ::
    tieBreaker.toList.map (Mapping.entry "tie_breaker")))

/-- `{key: {"filters": clauses}}`, or `"queries"` on that side. -/
def groupOf (side : JoinSide) (key : String) (clauses : List Value) : Mapping :=
  Mapping.single key (.map (Mapping.single side.name (.list clauses)))

end Join

end SearchCriteria
