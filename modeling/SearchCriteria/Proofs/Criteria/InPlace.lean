import SearchCriteria.Criteria.InPlace
import SearchCriteria.Proofs.Patch

/-!
# Updates in place are made as a whole

Step by step, an update comes to the same as the update that is checked as a whole: every step that
can fail comes before the first one that writes, and where a mapping is put entry by entry nothing
can fail any more.
-/

namespace SearchCriteria.Criteria

/-- What is left behind when a change is made as a whole or not at all. -/
def wholly (c : Criteria) : Except Fault Criteria → EStateM.Result Fault Criteria Unit
  | .ok d => .ok () d
  | .error fault => .error fault c

theorem edit_eq_wholly (u : Update) (c : Criteria) : edit u c = wholly c (c.apply u) := by
  simp only [edit]
  cases c.apply u <;> rfl

variable {α : Type} {slot : Slot α}

/-- A check leaves the criteria alone. -/
theorem ofExcept_bind (x : Except Fault α) (next : α → Edit) (c : Criteria) :
    (ofExcept x >>= next) c =
      match x with
      | .ok a => next a c
      | .error fault => .error fault c := by
  cases x <;> rfl

/-- Checks one after the other come to all of them at once. -/
theorem forM_ofExcept (check : α → Except Fault Unit) (xs : List α) (next : Unit → Edit)
    (c : Criteria) :
    ((xs.forM fun x ↦ (ofExcept (check x) : Edit)) >>= next) c =
      (ofExcept (xs.forM check) >>= next) c := by
  induction xs with
  | nil => rfl
  | cons x xs ih =>
    change
      ((ofExcept (check x) >>= fun _ ↦ xs.forM fun x ↦ (ofExcept (check x) : Edit)) >>= next) c =
        (ofExcept (check x >>= fun _ ↦ xs.forM check) >>= next) c
    cases check x with
    | error => rfl
    | ok => exact ih

/-- Entries put one by one are overlaid. -/
theorem forM_put (slot : Slot Mapping) (entries : Mapping) (c : Criteria) :
    (entries.forM fun (key, value) ↦ slot.change (·.put key value)) c =
      .ok () (slot.set c ((slot.get c).overlay entries)) := by
  induction entries generalizing c with
  | nil =>
    rw [Mapping.overlay_nil, slot.set_get]
    rfl
  | cons e rest ih =>
    obtain ⟨key, value⟩ := e
    change (rest.forM fun (key, value) ↦ slot.change (·.put key value))
      (slot.set c ((slot.get c).put key value)) = _
    rw [ih, slot.get_set, slot.set_set]
    rfl

theorem putAll_eq_wholly (s : Storage) (slot : Slot Mapping) (patch : Value) (c : Criteria) :
    putAll s slot patch c =
      wholly c (do return slot.set c ((slot.get c).overlay (← mapPatch s patch))) := by
  cases patch with
  | null =>
    change _ = EStateM.Result.ok () (slot.set c (slot.get c))
    rw [slot.set_get]
    rfl
  | map entries => exact forM_put slot entries c
  | _ => rfl

theorem appendClauses_eq_wholly (s : Storage) (slot : Slot (List Value)) (patch : Value)
    (c : Criteria) :
    appendClauses s slot patch c =
      wholly c (do return slot.set c (slot.get c ++ (← clausePatch s patch))) := by
  rw [appendClauses, forM_ofExcept, ofExcept_bind, clausePatch]
  cases (Patch.items patch).forM (requireClause s) <;> rfl

theorem uniteNames_eq_wholly (slot : Slot (List String)) (patch : Value) (purge : Option Bool)
    (c : Criteria) :
    uniteNames slot patch purge c =
      wholly c
        (do return slot.set c (unionNames (kept purge (slot.get c)) (← Patch.names patch))) := by
  rw [uniteNames, ofExcept_bind]
  cases Patch.names patch <;> rfl

/-- The update in steps and the update as a whole leave the same behind. -/
theorem updating_eq_edit (u : Update) : updating u = edit u := by
  funext c
  obtain ⟨s, patch, purge⟩ := u
  rw [edit_eq_wholly, updating, ofExcept_bind, apply, update.eq_def]
  cases checkPurge s purge with
  | error => rfl
  | ok =>
    cases s with
    | sort | scores => rfl
    | queries | filters | postFilters => exact appendClauses_eq_wholly _ _ patch c
    | fields | types => exact uniteNames_eq_wholly _ patch purge c
    | _ => exact putAll_eq_wholly _ _ patch c

end SearchCriteria.Criteria
