import SearchCriteria.Criteria.Basic

/-!
# Updates in place, step by step

An update is a program on the criteria: it looks at its arguments, reads the storage and writes it.
What was written before a fault stays written, so it is the order of the steps that keeps a refused
update from leaving anything behind. Mappings are put entry by entry into the one that is there.
-/

namespace SearchCriteria.Criteria

/-- A storage that can be read and written. -/
structure Slot (α : Type) where
  get : Criteria → α
  set : Criteria → α → Criteria
  get_set (c : Criteria) (a : α) : get (set c a) = a := by intros; rfl
  set_get (c : Criteria) : set c (get c) = c := by intros; rfl
  set_set (c : Criteria) (a b : α) : set (set c a) b = set c b := by intros; rfl

namespace Slot

def queries : Slot (List Value) where
  get := Criteria.queries
  set c items := { c with queries := items }

def filters : Slot (List Value) where
  get := Criteria.filters
  set c items := { c with filters := items }

def postFilters : Slot (List Value) where
  get := Criteria.postFilters
  set c items := { c with postFilters := items }

def sort : Slot (List Value) where
  get := Criteria.sort
  set c items := { c with sort := items }

def fields : Slot (List String) where
  get := Criteria.fields
  set c names := { c with fields := names }

def types : Slot (List String) where
  get := Criteria.types
  set c names := { c with types := names }

def scores : Slot (List Value) where
  get := Criteria.scores
  set c items := { c with scores := items }

def options : Slot Mapping where
  get := Criteria.options
  set c entries := { c with options := entries }

def requestOptions : Slot Mapping where
  get := Criteria.requestOptions
  set c entries := { c with requestOptions := entries }

def facets : Slot Mapping where
  get := Criteria.facets
  set c entries := { c with facets := entries }

def aggregations : Slot Mapping where
  get := Criteria.aggregations
  set c entries := { c with aggregations := entries }

def suggest : Slot Mapping where
  get := Criteria.suggest
  set c entries := { c with suggest := entries }

def scriptFields : Slot Mapping where
  get := Criteria.scriptFields
  set c entries := { c with scriptFields := entries }

/-- Write what the storage holds anew. -/
def change {α : Type} (slot : Slot α) (f : α → α) : Edit :=
  modify fun c => slot.set c (f (slot.get c))

end Slot

/-- Overwrite key by key. -/
def putAll (s : Storage) (slot : Slot Mapping) : Value → Edit
  | .null => pure ()
  | .map entries => entries.forM fun (key, value) => slot.change (·.put key value)
  | v => throw (.patchNotMapping s v.kind)

/-- Every clause is looked at before the first is appended. -/
def appendClauses (s : Storage) (slot : Slot (List Value)) (patch : Value) : Edit := do
  let items := Patch.items patch
  items.forM fun v => ofExcept (requireClause s v)
  slot.change (· ++ items)

/-- The names are read before the old ones are dropped. -/
def uniteNames (slot : Slot (List String)) (patch : Value) (purge : Option Bool) : Edit := do
  let names ← ofExcept (Patch.names patch)
  slot.change fun held => unionNames (kept purge held) names

/-- The update as a program. -/
def updating (u : Update) : Edit := do
  ofExcept (checkPurge u.storage u.purge)
  match u.storage with
  | .queries => appendClauses .queries Slot.queries u.patch
  | .filters => appendClauses .filters Slot.filters u.patch
  | .postFilters => appendClauses .postFilters Slot.postFilters u.patch
  | .sort => Slot.sort.change (kept u.purge · ++ Patch.sortSpecs u.patch)
  | .fields => uniteNames Slot.fields u.patch u.purge
  | .types => uniteNames Slot.types u.patch u.purge
  | .scores => Slot.scores.change (· ++ Patch.items u.patch)
  | .options => putAll .options Slot.options u.patch
  | .requestOptions => putAll .requestOptions Slot.requestOptions u.patch
  | .facets => putAll .facets Slot.facets u.patch
  | .aggregations => putAll .aggregations Slot.aggregations u.patch
  | .suggest => putAll .suggest Slot.suggest u.patch
  | .scriptFields => putAll .scriptFields Slot.scriptFields u.patch

end SearchCriteria.Criteria
