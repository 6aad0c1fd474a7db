import SearchCriteria.Association
import SearchCriteria.Fault

/-! # Text keys of mappings -/

namespace SearchCriteria

/-- Two texts with the same characters. Nothing but a text is the same key as a text. -/
def Value.sameText : Value → Value → Bool
  | .text s, .text t => s == t
  | _, _ => false

@[simp] theorem Value.sameText_text (s t : String) :
    Value.sameText (.text s) (.text t) = (s == t) := rfl

namespace Mapping

def getText? (mapping : Mapping) (key : String) : Option Value :=
  Association.get? Value.sameText (.text key) mapping

def putText (mapping : Mapping) (key : String) (value : Value) : Mapping :=
  Association.put Value.sameText (.text key) value mapping

def eraseText (mapping : Mapping) (key : String) : Mapping :=
  Association.erase Value.sameText (.text key) mapping

/-- The value under a text key, absent if it is null. -/
def present? (mapping : Mapping) (key : String) : Option Value :=
  match mapping.getText? key with
  | some .null | none => none
  | some value => some value

/-- The value under a text key, if it counts as set. -/
def truthy? (mapping : Mapping) (key : String) : Option Value :=
  (mapping.getText? key).filter Value.truthy

/-- Add an entry for a value that is there. -/
def addSome (mapping : Mapping) (key : String) : Option Value → Mapping
  | none => mapping
  | some value => mapping.putText key value

/-- The entries by name, if every key is text. -/
def named (mapping : Mapping) : Except Fault (List (String × Value)) :=
  mapping.mapM fun
    | (.text name, value) => .ok (name, value)
    | _ => .error .namesNotText

@[simp] theorem addSome_none (mapping : Mapping) (key : String) :
    mapping.addSome key none = mapping := rfl

@[simp] theorem addSome_some (mapping : Mapping) (key : String) (value : Value) :
    mapping.addSome key (some value) = mapping.putText key value := rfl

@[simp] theorem getText?_single (key : String) (value : Value) :
    getText? (single key value) key = some value := by
  simp [getText?, single, entry, Association.get?]

theorem putText_ne_nil (mapping : Mapping) (key : String) (value : Value) :
    mapping.putText key value ≠ [] := Association.put_ne_nil _ _ _

end Mapping

end SearchCriteria
