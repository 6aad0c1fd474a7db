import SearchCriteria.Criteria.Patch

/-!
# What patches come down to

Leaves are never sequences, so what a patch adds to a storage is left as it is when it comes as a
patch again: clauses, scoring functions, sort keys and names are fixed points of their own rules.
-/

namespace SearchCriteria

/-- A computation that may fail ends well when both of its steps do. -/
theorem bind_eq_ok {α β ε : Type} {x : Except ε α} {f : α → Except ε β} {b : β} :
    x >>= f = .ok b ↔ ∃ a, x = .ok a ∧ f a = .ok b := by
  cases x <;> simp [bind, Except.bind]

theorem forM_eq_ok {α ε : Type} {f : α → Except ε Unit} {xs : List α} :
    xs.forM f = .ok () ↔ ∀ x ∈ xs, f x = .ok () := by
  induction xs with
  | nil => simp [pure, Except.pure]
  | cons y ys ih =>
    change (f y >>= fun _ ↦ ys.forM f) = .ok () ↔ _
    rw [bind_eq_ok, List.forall_mem_cons, ← ih]
    constructor
    · rintro ⟨⟨⟩, hy, hys⟩
      exact ⟨hy, hys⟩
    · rintro ⟨hy, hys⟩
      exact ⟨(), hy, hys⟩

/-- Whatever a traversal gives comes of one of the items. -/
theorem exists_mem_of_mapM {α β ε : Type} {f : α → Except ε β} {xs : List α} {ys : List β}
    (h : xs.mapM f = .ok ys) {y : β} (hy : y ∈ ys) : ∃ x ∈ xs, f x = .ok y := by
  induction xs generalizing ys with
  | nil =>
    obtain rfl : ys = [] := by simpa [pure, Except.pure, eq_comm] using h
    exact absurd hy List.not_mem_nil
  | cons x xs ih =>
    rw [List.mapM_cons] at h
    obtain ⟨z, hz, h⟩ := bind_eq_ok.mp h
    obtain ⟨zs, hzs, h⟩ := bind_eq_ok.mp h
    obtain rfl := Except.ok.inj h
    rcases List.mem_cons.mp hy with rfl | hy
    · exact ⟨x, List.mem_cons_self, hz⟩
    · obtain ⟨w, hw, hwy⟩ := ih hzs hy
      exact ⟨w, List.mem_cons_of_mem x hw, hwy⟩

/-- A traversal that ends well has a result for every item. -/
theorem filterMap_toOption_of_mapM {α β ε : Type} {f : α → Except ε β} {xs : List α}
    {ys : List β} (h : xs.mapM f = .ok ys) : (xs.filterMap fun x ↦ (f x).toOption) = ys := by
  induction xs generalizing ys with
  | nil => simpa [pure, Except.pure] using h
  | cons x xs ih =>
    rw [List.mapM_cons] at h
    obtain ⟨z, hz, h⟩ := bind_eq_ok.mp h
    obtain ⟨zs, hzs, h⟩ := bind_eq_ok.mp h
    obtain rfl := Except.ok.inj h
    rw [List.filterMap_cons, hz, ih hzs]
    rfl

namespace Value

/-- Neither a list nor a tuple. -/
def IsLeaf : Value → Prop
  | .list _ | .tuple _ => False
  | _ => True

/-- A node, or a mapping that holds something. -/
def IsClause : Value → Prop
  | .node _ => True
  | .map entries => entries ≠ []
  | _ => False

/-- A leaf, and among mappings only one with a single entry. -/
def IsSortKey : Value → Prop
  | .list _ | .tuple _ => False
  | .map entries => entries.length = 1
  | _ => True

theorem IsLeaf.leaves_eq {v : Value} (h : v.IsLeaf) : v.leaves = [v] := by
  cases v with
  | list | tuple => exact h.elim
  | _ => rfl

theorem IsClause.isLeaf {v : Value} (h : v.IsClause) : v.IsLeaf := by
  cases v with
  | node | map => trivial
  | _ => exact h.elim

theorem IsClause.not_blank {v : Value} (h : v.IsClause) : v.isBlank = false := by
  cases v with
  | node => rfl
  | map entries => simpa [isBlank, IsClause] using h
  | _ => exact h.elim

theorem IsSortKey.isLeaf {v : Value} (h : v.IsSortKey) : v.IsLeaf := by
  cases v with
  | list | tuple => exact h.elim
  | _ => trivial

theorem IsSortKey.sortKeys_eq {v : Value} (h : v.IsSortKey) : Patch.sortKeys v = [v] := by
  cases v with
  | map entries =>
    obtain ⟨entry, rfl⟩ := List.length_eq_one_iff.mp h
    rfl
  | list | tuple => exact h.elim
  | _ => rfl

end Value

/-! ## Leaves -/

mutual

theorem Value.isLeaf_of_mem_leaves : ∀ (v : Value), ∀ w ∈ v.leaves, w.IsLeaf
  | .list items | .tuple items => isLeaf_of_mem_leavesOf items
  | .null | .bool _ | .int _ | .real _ | .text _ | .map _ | .set _ _ | .node _ => by
    intro w hw
    obtain rfl := List.mem_singleton.mp hw
    trivial
termination_by structural v => v

theorem isLeaf_of_mem_leavesOf : ∀ (vs : List Value), ∀ w ∈ leavesOf vs, w.IsLeaf
  | [], _, hw => absurd hw List.not_mem_nil
  | v :: vs, w, hw => by
    rw [leavesOf, List.mem_append] at hw
    rcases hw with hw | hw
    · exact Value.isLeaf_of_mem_leaves v w hw
    · exact isLeaf_of_mem_leavesOf vs w hw
termination_by structural vs => vs

end

theorem leavesOf_eq_self {items : List Value} (h : ∀ v ∈ items, v.IsLeaf) :
    leavesOf items = items := by
  induction items with
  | nil => rfl
  | cons v vs ih =>
    rw [leavesOf, (h v List.mem_cons_self).leaves_eq, ih fun w hw ↦ h w (List.mem_cons_of_mem v hw)]
    rfl

namespace Patch

/-! ## Clauses and scoring functions -/

theorem isLeaf_of_mem_items {patch v : Value} (h : v ∈ items patch) : v.IsLeaf :=
  isLeaf_of_mem_leavesOf _ v (List.mem_filter.mp h).1

theorem not_blank_of_mem_items {patch v : Value} (h : v ∈ items patch) : v.isBlank = false := by
  simpa using (List.mem_filter.mp h).2

theorem items_eq_self {values : List Value} (hleaf : ∀ v ∈ values, v.IsLeaf)
    (hblank : ∀ v ∈ values, v.isBlank = false) : items (.list values) = values := by
  rw [items, leaves_list, leavesOf_eq_self hleaf, compact]
  exact List.filter_eq_self.mpr fun v hv ↦ by simp [hblank v hv]

/-! ## Sort keys -/

theorem isSortKey_of_mem_sortKeys {v w : Value} (hv : v.IsLeaf) (h : w ∈ sortKeys v) :
    w.IsSortKey := by
  cases v with
  | map entries =>
    obtain ⟨entry, -, rfl⟩ := List.mem_map.mp h
    rfl
  | list | tuple => exact hv.elim
  | _ =>
    obtain rfl := List.mem_singleton.mp h
    trivial

theorem isSortKey_of_mem_sortSpecs {patch w : Value} (h : w ∈ sortSpecs patch) : w.IsSortKey := by
  obtain ⟨v, hv, hw⟩ := List.mem_flatMap.mp h
  exact isSortKey_of_mem_sortKeys (isLeaf_of_mem_leavesOf _ v hv) hw

theorem sortSpecs_eq_self {values : List Value} (h : ∀ v ∈ values, v.IsSortKey) :
    sortSpecs (.list values) = values := by
  rw [sortSpecs, leaves_list, leavesOf_eq_self fun v hv ↦ (h v hv).isLeaf]
  induction values with
  | nil => rfl
  | cons v vs ih =>
    rw [List.flatMap_cons, (h v List.mem_cons_self).sortKeys_eq,
      ih fun w hw ↦ h w (List.mem_cons_of_mem v hw)]
    rfl

/-! ## Names -/

theorem not_blank_of_mem_names {patch : Value} {found : List String} (h : names patch = .ok found)
    (name : String) (hname : name ∈ found) : Text.isBlank name = false := by
  obtain ⟨all, -, hfound⟩ := bind_eq_ok.mp h
  obtain rfl := Except.ok.inj hfound
  simpa using (List.mem_filter.mp hname).2

theorem mapM_nameOf_text (found : List String) : (found.map Value.text).mapM nameOf = .ok found := by
  induction found with
  | nil => rfl
  | cons name rest ih => simp [ih, pure, Except.pure, bind, Except.bind]

theorem names_eq_self {found : List String} (h : ∀ name ∈ found, Text.isBlank name = false) :
    names (.list (found.map .text)) = .ok found := by
  have hleaf : leavesOf (found.map .text) = found.map .text := by
    refine leavesOf_eq_self fun v hv ↦ ?_
    obtain ⟨name, -, rfl⟩ := List.mem_map.mp hv
    trivial
  have hfilter : found.filter (!Text.isBlank ·) = found :=
    List.filter_eq_self.mpr fun name hname ↦ by simp [h name hname]
  rw [names, leaves_list, hleaf, mapM_nameOf_text]
  exact congrArg Except.ok hfilter

end Patch

end SearchCriteria
