import SearchCriteria.Request
import SearchCriteria.Search.Call

/-! # Searches: criteria refined step by step -/

namespace SearchCriteria

/-- A search never changes; every call gives a new one. -/
structure Search where
  criteria : Criteria

namespace Search

def start (config : Config) : Search := ⟨Criteria.start config []⟩

/-- The search after a call. -/
def apply (s : Search) (call : Call) : Except Fault Search := do
  let update ← call.update
  return ⟨← s.criteria.apply update⟩

def merge (s other : Search) : Except Fault Search := do
  return ⟨← s.criteria.merge other.criteria⟩

def isNone (s : Search) : Bool := s.criteria.isNone

def equal (s other : Search) : Bool := s.criteria.equal other.criteria

/-- The request document. -/
def request (s : Search) : Except Fault Mapping := s.criteria.compile

/-- The literal text shows the request. -/
def literal (s : Search) : Except Fault String := do
  return "<Search: " ++ (← requireText (Value.map (← s.request)).literal?) ++ ">"

@[simp] theorem request_eq_compile (s : Search) : s.request = s.criteria.compile := rfl

end Search

/-- What may be given where a criteria or a search is expected. -/
inductive Operand where
  | criteria (c : Criteria)
  | search (s : Search)
  | value (v : Value)

namespace Operand

def kind : Operand → String
  | .criteria _ => "Criteria"
  | .search _ => "Search"
  | .value v => v.kind

/-- A criteria equals criteria only, a search searches only. -/
def equal : Operand → Operand → Bool
  | .criteria a, .criteria b => a.equal b
  | .search a, .search b => a.equal b
  | .value a, .value b => Value.equal a b
  | _, _ => false

end Operand

/-- Merge a criteria with what is given as one. -/
def Criteria.mergeWith (c : Criteria) : Operand → Except Fault Criteria
  | .criteria other => c.merge other
  | other => .error (.mergeNotCriteria other.kind)

/-- Merge what is given as a criteria in place. -/
def Criteria.mergeIntoWith : Operand → Criteria.Edit
  | .criteria other => Criteria.mergeInto other
  | other => throw (.mergeNotCriteria other.kind)

/-- Merge a search with what is given as one. -/
def Search.mergeWith (s : Search) : Operand → Except Fault Search
  | .search other => s.merge other
  | other => .error (.missingOperation other.kind "criteria")

/-- Both at once: a search merges with the other, and nothing else can be combined so. -/
def Operand.conjoin (a b : Operand) : Except Fault Search :=
  match a with
  | .search s => s.mergeWith b
  | a => .error (.unsupportedOperands "&" a.kind b.kind)

end SearchCriteria
