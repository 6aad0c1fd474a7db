import SearchCriteria.Config
import SearchCriteria.Criteria.Patch

/-!
# Search criteria

A criteria collects clauses, selectors, scoring functions and options. An update is checked as a
whole before it is made, and merging updates one criteria with the contents of another.
-/

namespace SearchCriteria

structure Criteria where
  queries : List Value := []
  filters : List Value := []
  postFilters : List Value := []
  sort : List Value := []
  fields : List String := []
  types : List String := []
  scores : List Value := []
  options : Mapping := []
  requestOptions : Mapping := []
  facets : Mapping := []
  aggregations : Mapping := []
  suggest : Mapping := []
  scriptFields : Mapping := []

namespace Criteria

/-- Options given at the start win over the configured modes. -/
def start (config : Config) (seed : Mapping) : Criteria :=
  { options := Mapping.overlay config.defaultOptions seed }

/-- A new criteria, with an optional mapping of options. -/
def create (config : Config) : Value → Except Fault Criteria
  | .null => .ok (start config [])
  | .map seed => .ok (start config seed)
  | v => .error (.optionsNotMapping v.kind)

/-- The content of a storage as a value. -/
def content (c : Criteria) : Storage → Value
  | .queries => .list c.queries
  | .filters => .list c.filters
  | .postFilters => .list c.postFilters
  | .sort => .list c.sort
  | .fields => .list (c.fields.map .text)
  | .types => .list (c.types.map .text)
  | .scores => .list c.scores
  | .options => .map c.options
  | .requestOptions => .map c.requestOptions
  | .facets => .map c.facets
  | .aggregations => .map c.aggregations
  | .suggest => .map c.suggest
  | .scriptFields => .map c.scriptFields

/-- A storage that holds anything. -/
def holds (c : Criteria) (s : Storage) : Bool := (c.content s).truthy

/-- The storages that hold anything, in order. -/
def present (c : Criteria) : List Storage := Storage.all.filter c.holds

def holdsNamed (c : Criteria) (name : String) : Except Fault Bool :=
  match Storage.ofName? name with
  | some s => .ok (c.holds s)
  | none => .error (.unknownStorage name)

/-- Marked to match nothing. -/
def isNone (c : Criteria) : Bool := (c.options.truthy? "none").isSome

/-! ## Updates -/

/-- The entries that a patch overlays on a map storage; null is no patch. -/
def mapPatch (s : Storage) : Value → Except Fault Mapping
  | .null => .ok []
  | .map entries => .ok entries
  | v => .error (.patchNotMapping s v.kind)

def requireClause (s : Storage) : Value → Except Fault Unit
  | .node _ | .map _ => .ok ()
  | v => .error (.patchNotClauses s v.kind)

/-- The clauses that a patch appends; one that is neither node nor mapping bars them all. -/
def clausePatch (s : Storage) (patch : Value) : Except Fault (List Value) := do
  let items := Patch.items patch
  items.forM (requireClause s)
  return items

/-- Only sort order and names can be replaced; the other storages take no such wish. -/
def checkPurge (s : Storage) (purge : Option Bool) : Except Fault Unit :=
  if s.replaceable || purge.isNone then .ok ()
  else .error (.unexpectedArgument ("Criteria.update_" ++ s.name) "purge")

/-- What is there before an update, nothing if it is purged. -/
def kept {α : Type} (purge : Option Bool) (items : List α) : List α :=
  if purge = some true then [] else items

def unionNames (existing additions : List String) : List String :=
  Distinct.union (· == ·) existing additions

/-- Update one storage by a patch, replacing what it held if `purge` asks for that. -/
def update (c : Criteria) (s : Storage) (patch : Value) (purge : Option Bool) :
    Except Fault Criteria := do
  checkPurge s purge
  match s with
  | .queries => return { c with queries := c.queries ++ (← clausePatch s patch) }
  | .filters => return { c with filters := c.filters ++ (← clausePatch s patch) }
  | .postFilters => return { c with postFilters := c.postFilters ++ (← clausePatch s patch) }
  | .sort => return { c with sort := kept purge c.sort ++ Patch.sortSpecs patch }
  | .fields => return { c with fields := unionNames (kept purge c.fields) (← Patch.names patch) }
  | .types => return { c with types := unionNames (kept purge c.types) (← Patch.names patch) }
  | .scores => return { c with scores := c.scores ++ Patch.items patch }
  | .options => return { c with options := c.options.overlay (← mapPatch s patch) }
  | .requestOptions =>
    return { c with requestOptions := c.requestOptions.overlay (← mapPatch s patch) }
  | .facets => return { c with facets := c.facets.overlay (← mapPatch s patch) }
  | .aggregations => return { c with aggregations := c.aggregations.overlay (← mapPatch s patch) }
  | .suggest => return { c with suggest := c.suggest.overlay (← mapPatch s patch) }
  | .scriptFields => return { c with scriptFields := c.scriptFields.overlay (← mapPatch s patch) }

/-- One update: the storage, the patch, and whether the storage is to be replaced. -/
structure Update where
  storage : Storage
  patch : Value
  purge : Option Bool := none

def apply (c : Criteria) (u : Update) : Except Fault Criteria := c.update u.storage u.patch u.purge

/-- The storage that the update of a given name is for. -/
def updateTarget (name : String) : Except Fault Storage :=
  match Storage.ofName? name with
  | some s => .ok s
  | none => .error (.missingOperation "Criteria" ("update_" ++ name))

/-! ## Merging -/

/-- A change in place: it ends well or with a fault, and leaves a criteria behind either way. -/
abbrev Edit := EStateM Fault Criteria Unit

/-- Make an update in place; a refused one leaves the criteria as it was. -/
def edit (u : Update) : Edit := fun c =>
  match c.apply u with
  | .ok updated => .ok () updated
  | .error fault => .error fault c

/-- Update every storage in place, in order, with what the other criteria holds there. -/
def mergeInto (other : Criteria) : Edit :=
  Storage.all.forM fun s => edit { storage := s, patch := other.content s }

/-- The criteria after merging another one into it. -/
def merge (c other : Criteria) : Except Fault Criteria :=
  match (mergeInto other).run c with
  | .ok _ merged => .ok merged
  | .error fault _ => .error fault

/-! ## Comparison and text -/

/-- Equal in every storage. -/
def equal (a b : Criteria) : Bool := Storage.all.all fun s => (a.content s).equal (b.content s)

/-- The storages that hold anything, by name. -/
def presentContents (c : Criteria) : Mapping :=
  c.present.map fun s => Mapping.entry s.name (c.content s)

/-- The literal text shows the storages that hold anything. -/
def literal? (c : Criteria) : Option String := do
  return "<Criteria: " ++ (← (Value.map c.presentContents).literal?) ++ ">"

@[simp] theorem options_start (config : Config) (seed : Mapping) :
    (start config seed).options = Mapping.overlay config.defaultOptions seed := rfl

end Criteria

end SearchCriteria
