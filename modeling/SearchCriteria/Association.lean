/-! # Key–value lists in insertion order -/

namespace SearchCriteria.Association

variable {κ α : Type} (same : κ → κ → Bool)

/-- The value of the first key that is the same as the given one. -/
def get? (key : κ) : List (κ × α) → Option α
  | [] => none
  | (k, v) :: rest => if same k key then some v else get? key rest

/-- Overwrite in place, keeping the key that is there; a new key goes to the end. -/
def put (key : κ) (value : α) : List (κ × α) → List (κ × α)
  | [] => [(key, value)]
  | (k, v) :: rest => if same k key then (k, value) :: rest else (k, v) :: put key value rest

/-- Drop every entry whose key is the same as the given one. -/
def erase (key : κ) (entries : List (κ × α)) : List (κ × α) :=
  entries.filter fun entry => !same entry.1 key

/-- Put the entries of the second list over the first, in order. -/
def overlay (entries additions : List (κ × α)) : List (κ × α) :=
  additions.foldl (fun acc entry => put same entry.1 entry.2 acc) entries

/-- The entries in order, each later one put over the earlier ones. -/
def ofList (entries : List (κ × α)) : List (κ × α) := overlay same [] entries

variable {same}

@[simp] theorem get?_nil (key : κ) : get? same key ([] : List (κ × α)) = none := rfl

@[simp] theorem put_nil (key : κ) (value : α) : put same key value [] = [(key, value)] := rfl

@[simp] theorem overlay_nil (entries : List (κ × α)) : overlay same entries [] = entries := rfl

@[simp] theorem overlay_cons (entries additions : List (κ × α)) (entry : κ × α) :
    overlay same entries (entry :: additions) =
      overlay same (put same entry.1 entry.2 entries) additions := rfl

theorem overlay_append (entries xs ys : List (κ × α)) :
    overlay same entries (xs ++ ys) = overlay same (overlay same entries xs) ys := by
  simp [overlay, List.foldl_append]

theorem put_ne_nil (key : κ) (value : α) (entries : List (κ × α)) :
    put same key value entries ≠ [] := by
  cases entries with
  | nil => simp
  | cons entry rest =>
    obtain ⟨k, v⟩ := entry
    unfold put
    split <;> simp

theorem get?_put_self (hrefl : ∀ k, same k k = true) (key : κ) (value : α)
    (entries : List (κ × α)) : get? same key (put same key value entries) = some value := by
  induction entries with
  | nil => simp [get?, hrefl]
  | cons entry rest ih =>
    obtain ⟨k, v⟩ := entry
    by_cases h : same k key = true <;> simp [put, get?, h, ih]

end SearchCriteria.Association
