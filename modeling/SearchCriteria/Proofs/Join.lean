import SearchCriteria.Criteria.Clauses
import SearchCriteria.Proofs.Patch

/-!
# What joins give

`Joins` lists the ways in which a join ends well.  Nothing comes of fragments that do not count, and
whatever comes of the others counts itself, so a join of joins sees the fragments of both.
-/

namespace SearchCriteria.Join

variable {side : JoinSide} {mode : Value} {fragments : List Value}

/-! ## Present fragments -/

@[simp] theorem present_append (xs ys : List Value) :
    present (xs ++ ys) = present xs ++ present ys := List.filter_append ..

theorem present_singleton {v : Value} (h : v.truthy = true) : present [v] = [v] := by
  simp [present, h]

theorem present_eq_nil_iff : present fragments = [] ↔ ∀ v ∈ fragments, v.truthy = false := by
  simp [present]

theorem present_maps {α : Type} {f : α → Mapping} (h : ∀ x, f x ≠ []) (xs : List α) :
    present (xs.map fun x ↦ .map (f x)) = xs.map fun x ↦ .map (f x) := by
  refine List.filter_eq_self.mpr fun v hv ↦ ?_
  obtain ⟨x, -, rfl⟩ := List.mem_map.mp hv
  simp [h x]

/-! ## Wrapping -/

/-- The wrapper for a mode that is no name. -/
def counted (side : JoinSide) (mode : Value) (clauses : List Value) : Mapping :=
  match mode, side with
  | .real _, .queries => bestOf (some mode) clauses
  | _, _ => atLeast mode clauses

theorem wrap_of_unnamed (h : JoinMode.ofValue? mode = none) (side : JoinSide)
    (clauses : List Value) :
    wrap side mode clauses = (do requireMember mode; return counted side mode clauses) := by
  simp only [wrap, h, counted]
  cases mode with
  | real => cases side <;> rfl
  | _ => rfl

theorem counted_ne_nil (side : JoinSide) (mode : Value) (clauses : List Value) :
    counted side mode clauses ≠ [] := by
  unfold counted
  split <;> exact List.cons_ne_nil _ _

/-- No wrapper is empty. -/
theorem ne_nil_of_wrap {clauses : List Value} {m : Mapping} (h : wrap side mode clauses = .ok m) :
    m ≠ [] := by
  cases hmode : JoinMode.ofValue? mode with
  | none =>
    rw [wrap_of_unnamed hmode] at h
    obtain ⟨-, -, hm⟩ := bind_eq_ok.mp h
    obtain rfl := Except.ok.inj hm
    exact counted_ne_nil side mode clauses
  | some name =>
    cases name <;> cases side <;> simp only [wrap, hmode] at h <;> cases h <;>
      exact List.cons_ne_nil _ _

theorem requireMember_of_hashable (h : mode.unhashable? = none) : requireMember mode = .ok () := by
  unfold requireMember
  split
  · rfl
  · exact Value.requireHashable_eq_ok_iff.mpr h

/-- A hashable mode has a wrapper. -/
theorem exists_wrap (h : mode.unhashable? = none) (side : JoinSide) (clauses : List Value) :
    ∃ m, wrap side mode clauses = .ok m := by
  cases hmode : JoinMode.ofValue? mode with
  | none =>
    rw [wrap_of_unnamed hmode, requireMember_of_hashable h]
    exact ⟨_, rfl⟩
  | some name =>
    simp only [wrap, hmode]
    cases name with
    | disMax => cases side <;> exact ⟨_, rfl⟩
    | _ => exact ⟨_, rfl⟩

/-! ## Joining -/

/-- The ways in which a join ends well. -/
inductive Joins (side : JoinSide) (mode : Value) (fragments : List Value) : Option Value → Prop
  | nothing (h : present fragments = []) : Joins side mode fragments none
  | lone {fragment} (h : present fragments = [fragment])
      (hmode : mode.isText JoinMode.mustNot.name = false) : Joins side mode fragments (some fragment)
  /-- A lone fragment is wrapped only to be negated. -/
  | several {m} (h : present fragments ≠ [])
      (hlone : ∀ fragment, present fragments = [fragment] →
        mode.isText JoinMode.mustNot.name = true)
      (hwrap : wrap side mode (present fragments) = .ok m) :
      Joins side mode fragments (some (.map m))

theorem joins_of_eq_ok {result : Option Value} (h : join side mode fragments = .ok result) :
    Joins side mode fragments result := by
  unfold join at h
  cases hpresent : present fragments with
  | nil =>
    rw [hpresent] at h
    obtain rfl := Except.ok.inj h
    exact .nothing hpresent
  | cons x xs =>
    have hne : present fragments ≠ [] := by
      rw [hpresent]
      exact List.cons_ne_nil x xs
    have hwrapped : ∀ (hmap : (wrap side mode (x :: xs)).map (fun m ↦ some (.map m)) = .ok result)
        (hlone : ∀ y, x :: xs = [y] → mode.isText JoinMode.mustNot.name = true),
        Joins side mode fragments result := by
      intro hmap hlone
      cases hwrap : wrap side mode (x :: xs) with
      | error => rw [hwrap] at hmap; cases hmap
      | ok m =>
        rw [hwrap] at hmap
        obtain rfl := Except.ok.inj hmap
        exact .several hne (hpresent ▸ hlone) (hpresent ▸ hwrap)
    rw [hpresent] at h
    cases xs with
    | cons => exact hwrapped h fun y hy ↦ absurd (List.cons.inj hy).2 (List.cons_ne_nil _ _)
    | nil =>
      cases hmode : mode.isText JoinMode.mustNot.name with
      | true =>
        rw [hmode] at h
        exact hwrapped h fun _ _ ↦ hmode
      | false =>
        rw [hmode] at h
        obtain rfl := Except.ok.inj h
        exact .lone hpresent hmode

theorem Joins.eq_none_iff {result : Option Value} (h : Joins side mode fragments result) :
    result = none ↔ present fragments = [] := by
  cases h with
  | nothing h => simp [h]
  | lone h => simp [h]
  | several h => simp [h]

/-- What comes of a join counts as a fragment. -/
theorem Joins.truthy {v : Value} (h : Joins side mode fragments (some v)) : v.truthy = true := by
  cases h with
  | lone h =>
    have hmem : v ∈ present fragments := by
      rw [h]
      exact List.mem_singleton_self v
    exact (List.mem_filter.mp hmem).2
  | several _ _ hwrap => simp [ne_nil_of_wrap hwrap]

theorem Joins.present_toList {result : Option Value} (h : Joins side mode fragments result) :
    present result.toList = result.toList := by
  cases result with
  | none => rfl
  | some v => exact present_singleton h.truthy

/-- Under a hashable mode every join ends well. -/
theorem exists_join (h : mode.unhashable? = none) (side : JoinSide) (fragments : List Value) :
    ∃ result, join side mode fragments = .ok result := by
  obtain ⟨m, hm⟩ := exists_wrap h side (present fragments)
  unfold join
  cases hpresent : present fragments with
  | nil => exact ⟨none, rfl⟩
  | cons x xs =>
    rw [hpresent] at hm
    cases xs with
    | nil => cases mode.isText JoinMode.mustNot.name <;> simp [Joined.of, hm, Except.map]
    | cons => simp [Joined.of, hm, Except.map]

end SearchCriteria.Join

namespace SearchCriteria.Criteria

variable {c : Criteria}

/-! ## The types and the filters -/

theorem typeFragment_ne_nil (name : String) : typeFragment name ≠ [] := List.cons_ne_nil _ _

theorem present_typeFragments (names : List String) :
    Join.present (names.map fun name ↦ .map (typeFragment name)) =
      names.map fun name ↦ .map (typeFragment name) :=
  Join.present_maps typeFragment_ne_nil names

theorem joinedTypes_eq_none_iff {types : Option Value} (h : c.joinedTypes = .ok types) :
    types = none ↔ c.types = [] := by
  rw [(Join.joins_of_eq_ok h).eq_none_iff, present_typeFragments, List.map_eq_nil_iff]

/-- Joining the filters first leaves something exactly if one of them counts. -/
theorem present_filterParts_eq_nil_iff {mode : Value} {fragments parts : List Value}
    (h : filterParts mode fragments = .ok parts) :
    Join.present parts = [] ↔ Join.present fragments = [] := by
  unfold filterParts at h
  split at h
  · obtain rfl := Except.ok.inj h
    rfl
  · obtain ⟨joined, hjoined, hparts⟩ := bind_eq_ok.mp h
    obtain rfl := Except.ok.inj hparts
    have hjoins := Join.joins_of_eq_ok hjoined
    rw [hjoins.present_toList, ← hjoins.eq_none_iff, Option.toList_eq_nil_iff]

theorem joinedFilter_eq_ok {f : Option Value} (h : c.joinedFilter = .ok f) :
    ∃ fragments types parts, clauseFragments c.filters = .ok fragments ∧
      c.joinedTypes = .ok types ∧ filterParts (c.mode "filter_mode") fragments = .ok parts ∧
      Join.join .filters (.text JoinMode.and.name) (types.toList ++ parts) = .ok f := by
  obtain ⟨fragments, hfragments, h⟩ := bind_eq_ok.mp h
  obtain ⟨parts, hparts, h⟩ := bind_eq_ok.mp h
  obtain ⟨types, htypes, h⟩ := bind_eq_ok.mp h
  exact ⟨fragments, types, parts, hfragments, htypes, hparts, h⟩

/-- There is a joined filter unless no filter counts and there are no types. -/
theorem joinedFilter_eq_none_iff {f : Option Value} {fragments : List Value}
    (h : c.joinedFilter = .ok f) (hfragments : clauseFragments c.filters = .ok fragments) :
    f = none ↔ Join.present fragments = [] ∧ c.types = [] := by
  obtain ⟨_, types, parts, hother, htypes, hparts, hjoin⟩ := joinedFilter_eq_ok h
  obtain rfl := Except.ok.inj (hother.symm.trans hfragments)
  rw [(Join.joins_of_eq_ok hjoin).eq_none_iff, Join.present_append, List.append_eq_nil_iff,
    (Join.joins_of_eq_ok htypes).present_toList, Option.toList_eq_nil_iff,
    joinedTypes_eq_none_iff htypes, present_filterParts_eq_nil_iff hparts, and_comm]

end SearchCriteria.Criteria
