import SearchCriteria.Distinct
import SearchCriteria.Proofs.Overlay

/-!
# Laws of the ordered union

Adding items to a list without repetitions only depends on the items' first occurrences, so the
ordered union is associative, and lists without repetitions are its fixed points.
-/

namespace SearchCriteria.Distinct

open Association (Lawful)

variable {α : Type} {same : α → α → Bool}

/-- No two items are the same. -/
def Separate (same : α → α → Bool) (items : List α) : Prop :=
  items.Pairwise fun x y ↦ same x y = false

theorem add_of_not_any {items : List α} {item : α} (h : items.any (same · item) = false) :
    add same items item = items ++ [item] := by
  simp [add, h]

theorem Separate.add {items : List α} (h : Separate same items) (item : α) :
    Separate same (add same items item) := by
  cases hany : items.any (same · item) with
  | true => rwa [add_of_any hany]
  | false =>
    rw [add_of_not_any hany, Separate, List.pairwise_append]
    refine ⟨h, List.pairwise_singleton _ _, fun x hx y hy ↦ ?_⟩
    obtain rfl : y = item := by simpa using hy
    simpa using List.any_eq_false.mp hany x hx

theorem Separate.addAll {items : List α} (h : Separate same items) (additions : List α) :
    Separate same (addAll same items additions) := by
  induction additions generalizing items with
  | nil => exact h
  | cons x xs ih => exact ih (h.add x)

theorem separate_union (xs ys : List α) : Separate same (union same xs ys) :=
  Separate.addAll List.Pairwise.nil (xs ++ ys)

theorem mem_addAll {items additions : List α} {x : α} (h : x ∈ addAll same items additions) :
    x ∈ items ∨ x ∈ additions := by
  induction additions generalizing items with
  | nil => exact .inl h
  | cons y ys ih =>
    rcases ih h with hx | hx
    · cases hany : items.any (same · y) with
      | true =>
        rw [add_of_any hany] at hx
        exact .inl hx
      | false =>
        rw [add_of_not_any hany, List.mem_append, List.mem_singleton] at hx
        rcases hx with hx | rfl
        · exact .inl hx
        · exact .inr List.mem_cons_self
    · exact .inr (List.mem_cons_of_mem y hx)

/-- Nothing but items of the two lists is in their union. -/
theorem mem_union {xs ys : List α} {x : α} (h : x ∈ union same xs ys) : x ∈ xs ∨ x ∈ ys := by
  have hx : x ∈ xs ++ ys := (mem_addAll h).resolve_left List.not_mem_nil
  exact List.mem_append.mp hx

/-- Items that are new, each of them once, follow the items that are there. -/
theorem addAll_eq_append {items additions : List α} (h : Separate same (items ++ additions)) :
    addAll same items additions = items ++ additions := by
  induction additions generalizing items with
  | nil => simp
  | cons x xs ih =>
    have hnew : items.any (same · x) = false := by
      rw [Separate, List.pairwise_append] at h
      exact List.any_eq_false.mpr fun y hy ↦ by simp [h.2.2 y hy x List.mem_cons_self]
    change addAll same (add same items x) xs = _
    rw [add_of_not_any hnew, ih (by simpa using h)]
    simp

theorem union_nil {xs : List α} (h : Separate same xs) : union same xs [] = xs := by
  rw [union_nil_right]
  exact addAll_eq_append h

theorem nil_union {xs : List α} (h : Separate same xs) : union same [] xs = xs :=
  addAll_eq_append h

variable (hs : Lawful same)

include hs

theorem any_add (items : List α) (item x : α) :
    (add same items item).any (same · x) = (items.any (same · x) || same item x) := by
  cases hany : items.any (same · item) with
  | false => simp [add_of_not_any hany]
  | true =>
    rw [add_of_any hany]
    cases hx : same item x with
    | false => simp
    | true =>
      -- the item that stands for the one added stands for `x` as well
      obtain ⟨y, hy, hyi⟩ := List.any_eq_true.mp hany
      have hyx : same y x = true := by rw [hs.congr hyi, hx]
      simpa using ⟨y, hy, hyx⟩

theorem any_addAll (items additions : List α) (x : α) :
    (addAll same items additions).any (same · x) =
      (items.any (same · x) || additions.any (same · x)) := by
  induction additions generalizing items with
  | nil => simp
  | cons y ys ih =>
    change (addAll same (add same items y) ys).any (same · x) = _
    rw [ih, any_add hs, List.any_cons, Bool.or_assoc]

/-- Adding items that were collected before is adding them one by one. -/
theorem addAll_addAll (items collected additions : List α) :
    addAll same items (addAll same collected additions) =
      addAll same (addAll same items collected) additions := by
  induction additions generalizing collected with
  | nil => rfl
  | cons x xs ih =>
    have hstep : addAll same items (add same collected x) =
        add same (addAll same items collected) x := by
      cases hany : collected.any (same · x) with
      | true =>
        have hthere : (addAll same items collected).any (same · x) = true := by
          rw [any_addAll hs, hany, Bool.or_true]
        rw [add_of_any hany, add_of_any hthere]
      | false =>
        rw [add_of_not_any hany, addAll_append]
        rfl
    change addAll same items (addAll same (add same collected x) xs) = _
    rw [ih, hstep]
    rfl

/-- Taking the union with first occurrences only makes no difference. -/
theorem union_union_right (xs ys zs : List α) :
    union same xs (union same ys zs) = addAll same [] (xs ++ (ys ++ zs)) := by
  rw [union, addAll_append, union, addAll_addAll hs, addAll_nil, ← addAll_append]

theorem union_assoc (xs ys zs : List α) :
    union same (union same xs ys) zs = union same xs (union same ys zs) := by
  rw [union_union_right hs, union, addAll_append, union, addAll_addAll hs, addAll_nil,
    ← addAll_append, List.append_assoc]

end SearchCriteria.Distinct
