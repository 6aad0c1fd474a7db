import SearchCriteria.Join.Mode
import SearchCriteria.Value.Mapping

/-! # Default join modes -/

namespace SearchCriteria

/-- The join modes that a new criteria starts from. -/
structure Config where
  queryMode : Value := .text JoinMode.must.name
  filterMode : Value := .text JoinMode.and.name
  /-- Absent, it follows the filter mode. -/
  postFilterMode : Option Value := none

namespace Config

/-- A mode field holds a number or text; a truth value counts as zero or one. -/
def numberOrText? : Value → Option Value
  | .bool b => some (.int (if b then 1 else 0))
  | .int i => some (.int i)
  | .real x => some (.real x)
  | .text s => some (.text s)
  | _ => none

/-- The mode in a field, or what is wrong with it. -/
def checkMode (field : String) (v : Value) : Except ConfigIssue Value :=
  match numberOrText? v with
  | none => .error (.notMode field)
  | some mode => (JoinMode.check mode).mapError (.refusedMode field)

def checkOptional (field : String) : Value → Except ConfigIssue (Option Value)
  | .null => .ok none
  | v => (checkMode field v).map some

/-- What is wrong with a field, if anything. -/
def issue? {α : Type} : Except ConfigIssue α → List ConfigIssue
  | .ok _ => []
  | .error issue => [issue]

/-- The value given for a field, or its default. -/
def given {α : Type} (fields : Mapping) (name : String) (default : α)
    (read : Value → Except ConfigIssue α) : Except ConfigIssue α :=
  (fields.getText? name).elim (.ok default) read

/-- A config from its fields, unknown ones ignored; all faulty fields are reported together. -/
def ofFields (fields : Mapping) : Except Fault Config := do
  let _ ← fields.named
  let queryMode := given fields "query_mode" (.text JoinMode.must.name) (checkMode "query_mode")
  let filterMode := given fields "filter_mode" (.text JoinMode.and.name) (checkMode "filter_mode")
  let postFilterMode := given fields "post_filter_mode" none (checkOptional "post_filter_mode")
  match queryMode, filterMode, postFilterMode with
  | .ok q, .ok f, .ok p => return ⟨q, f, p⟩
  | q, f, p => throw (.refusedConfig (issue? q ++ issue? f ++ issue? p))

/-- The value under a name in the contents of a config. -/
def contentOf (contents : Mapping) (name : String) : Except Fault Value :=
  (contents.getText? name).elim (.error (.missingOperation "QueryConfig" name)) .ok

/-- A config whose contents are replaced as a whole, without a check. -/
def ofContents : Value → Except Fault Config
  | .map contents => do
    let queryMode ← contentOf contents "query_mode"
    let filterMode ← contentOf contents "filter_mode"
    let postFilterMode ← contentOf contents "post_filter_mode"
    return ⟨queryMode, filterMode, if postFilterMode matches .null then none else postFilterMode⟩
  | v => .error (.notContents v.kind)

/--
The fields of a config never change. Of the names with an underscore in front, some stand for its
class, its contents and what can only be read, and the others are none of its concern.
-/
def assignNamed (c : Config) (name : String) (v : Value) : Except Fault Config :=
  match name with
  | "__class__" => .error (.notClass v.kind)
  | "__dict__" => ofContents v
  | "__fields__" | "__fields_set__" => .error (.readOnlyProperty "QueryConfig" name)
  | "__weakref__" => .error (.readOnlyAttribute "QueryConfig" name)
  | _ => if name.startsWith "_" then .ok c else .error (.refusedConfig [.frozen name])

/-- Only text names something to assign to. -/
def assign (c : Config) : Value → Value → Except Fault Config
  | .text name, v => c.assignNamed name v
  | name, _ => .error (.nameNotText name.kind)

def resolvedPostFilterMode (c : Config) : Value := c.postFilterMode.getD c.filterMode

/-- The options that every new criteria starts from. -/
def defaultOptions (c : Config) : Mapping :=
  [Mapping.entry "query_mode" c.queryMode,
   Mapping.entry "filter_mode" c.filterMode,
   Mapping.entry "post_filter_mode" c.resolvedPostFilterMode]

end Config

end SearchCriteria
