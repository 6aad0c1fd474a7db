import SearchCriteria.Criteria.InPlace
import SearchCriteria.Search.Basic

/-!
# Sessions

A program works on many criteria at a time, and names each by the place where it lives. Only
updates and merges in place write to a place; everything else makes new places. A search is known by
the place of its criteria, which it may share with others. An operation that fails leaves behind
what it did until then.
-/

namespace SearchCriteria

/-- The criteria by place. -/
abbrev Session := List Criteria

namespace Session

/-- An operation on a session ends well or with a fault, and leaves a session behind either way. -/
abbrev Action := EStateM Fault Session

/-- What may be given where a criteria or a search is expected. -/
inductive Argument where
  | criteria (place : Nat)
  | search (place : Nat)
  | value (v : Value)

def Argument.kind : Argument → String
  | .criteria _ => "Criteria"
  | .search _ => "Search"
  | .value v => v.kind

/-- The criteria at a place. At a place where none is, the operation is not to be had. -/
def find (operation : String) (place : Nat) : Action Criteria := do
  match (← get)[place]? with
  | some c => return c
  | none => throw (.missingOperation Value.null.kind operation)

/-- Let a criteria live at a new place. -/
def push (c : Criteria) : Action Nat := modifyGet fun h => (h.length, h ++ [c])

/-- A copy at a place of its own. -/
def clone (place : Nat) : Action Nat := do push (← find "clone" place)

/-- Run an edit on the criteria at a place; what it leaves behind is there from then on. -/
def editAt (operation : String) (place : Nat) (edit : Criteria.Edit) : Action Unit := do
  match edit.run (← find operation place) with
  | .ok _ c => modify (·.set place c)
  | .error fault c => do
    modify (·.set place c)
    throw fault

def update (place : Nat) (u : Criteria.Update) : Action Unit :=
  editAt ("update_" ++ u.storage.name) place (Criteria.updating u)

/-- Update one storage with what the other criteria holds there at the time. -/
def mergeStorage (place other : Nat) (s : Storage) : Action Unit := do
  let patch := (← find s.name other).content s
  update place { storage := s, patch }

/-- Merge storage by storage into the criteria at a place. -/
def mergeInto (place : Nat) : Argument → Action Unit
  | .criteria other => Storage.all.forM (mergeStorage place other)
  | other => throw (.mergeNotCriteria other.kind)

/-- Do with a copy what would be done in place, and give the copy. -/
def onCopy (place : Nat) (action : Nat → Action Unit) : Action Nat := do
  let copy ← clone place
  action copy
  return copy

def merge (place : Nat) (other : Argument) : Action Nat := onCopy place (mergeInto · other)

/-- A call on a search updates a copy of its criteria, once its own arguments are checked. -/
def call (place : Nat) (method : String) (args : List Value) (named : Mapping) : Action Nat := do
  let make ← ofExcept (Call.ofMethod method)
  let call ← ofExcept (make args named)
  let u ← ofExcept call.update
  onCopy place (update · u)

/-- Merge the criteria of two searches. -/
def mergeSearch (place : Nat) : Argument → Action Nat
  | .search other => merge place (.criteria other)
  | other => throw (.missingOperation other.kind "criteria")

/-- Everything that a program can do with criteria and searches. -/
inductive Operation where
  | criteria (config : Config) (options : Value)
  | search (config : Config)
  | update (place : Nat) (u : Criteria.Update)
  | merge (place : Nat) (other : Argument)
  | mergeInto (place : Nat) (other : Argument)
  | clone (place : Nat)
  | compile (place : Nat)
  | call (place : Nat) (method : String) (args : List Value) (named : Mapping)
  | mergeSearch (place : Nat) (other : Argument)

/-- What an operation gives: a criteria, a search or a request document. -/
inductive Answer where
  | criteria (place : Nat)
  | search (place : Nat)
  | document (request : Mapping)

def Operation.perform : Operation → Action Answer
  | .criteria config options => do
    return .criteria (← push (← ofExcept (Criteria.create config options)))
  | .search config => do return .search (← push (Criteria.start config []))
  | .update place u => do
    Session.update place u
    return .criteria place
  | .merge place other => do return .criteria (← Session.merge place other)
  | .mergeInto place other => do
    Session.mergeInto place other
    return .criteria place
  | .clone place => do return .criteria (← Session.clone place)
  | .compile place => do return .document (← ofExcept (← find "compile" place).compile)
  | .call place method args named => do return .search (← Session.call place method args named)
  | .mergeSearch place other => do return .search (← Session.mergeSearch place other)

/-- The session that an operation leaves behind. -/
def after (h : Session) (operation : Operation) : Session :=
  match operation.perform.run h with
  | .ok _ left | .error _ left => left

/-- The session after a run of operations from an empty one, the refused ones among them. -/
def run (operations : List Operation) : Session := operations.foldl after []

end Session

end SearchCriteria
