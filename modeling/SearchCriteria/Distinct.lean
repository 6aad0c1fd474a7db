/-! # Lists without repetitions, first occurrences kept -/

namespace SearchCriteria.Distinct

variable {α : Type} (same : α → α → Bool)

/-- Add an item at the end, unless the same one is there. -/
def add (items : List α) (item : α) : List α :=
  if items.any (same · item) then items else items ++ [item]

/-- Add the items in order. -/
def addAll (items additions : List α) : List α := additions.foldl (add same) items

/-- The first occurrences in the first list followed by the second. -/
def union (xs ys : List α) : List α := addAll same [] (xs ++ ys)

variable {same}

@[simp] theorem addAll_nil (items : List α) : addAll same items [] = items := rfl

theorem addAll_append (items xs ys : List α) :
    addAll same items (xs ++ ys) = addAll same (addAll same items xs) ys := by
  simp [addAll, List.foldl_append]

theorem add_of_any {items : List α} {item : α} (h : items.any (same · item) = true) :
    add same items item = items := if_pos h

theorem union_nil_right (xs : List α) : union same xs [] = addAll same [] xs := by
  simp [union]

end SearchCriteria.Distinct
