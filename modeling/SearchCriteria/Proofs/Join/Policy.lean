import SearchCriteria.Proofs.Request.Grouping
import SearchCriteria.Proofs.Search.Modes

/-!
# The policy of joins

Scoring clauses and filtering clauses are joined by one policy.  Nothing counts and nothing comes of
it, a lone clause stands for itself unless it is to be negated, and whatever else there is comes
under one wrapper that lists exactly the clauses that count.  A wrapper is larger than any of its
clauses, so it is never taken for one of them.
-/

namespace SearchCriteria

open Mapping (entry)

theorem Value.isText_iff {v : Value} {s : String} : v.isText s = true ↔ v = .text s := by
  cases v with
  | text t => simp
  | _ => simp [Value.isText]

/-- A wrapper is made for all clauses or for none. -/
theorem Joined.of_eq_several {α : Type} {keepsLone : Bool} {xs ys : List α}
    (h : Joined.of keepsLone xs = .several ys) : ys = xs := by
  match xs with
  | [] => cases h
  | [x] =>
    cases keepsLone with
    | false => cases h
    | true => exact (Joined.several.inj h).symm
  | _ :: _ :: _ => exact (Joined.several.inj h).symm

namespace Join

variable {side : JoinSide} {mode : Value} {clauses fragments : List Value} {result : Option Value}

/-! ## Wrappers -/

/-- The lists among the values of a mapping. -/
def clauseLists (body : Mapping) : List (List Value) :=
  body.filterMap fun e ↦
    match e.2 with
    | .list clauses => some clauses
    | _ => none

/-- A mapping of one key, and in the body under it one list: the clauses. -/
def Encloses (clauses : List Value) (v : Value) : Prop :=
  ∃ key body, v = .map [entry key (.map body)] ∧ clauseLists body = [clauses]

theorem encloses_single {key name : String} :
    Encloses clauses (.map [entry key (.map (Mapping.single name (.list clauses)))]) :=
  ⟨key, _, rfl, rfl⟩

/-- A mode that a wrapper carries along is no list of clauses. -/
theorem encloses_atLeast (h : mode.unhashable? = none) :
    Encloses clauses (.map (atLeast mode clauses)) := by
  refine ⟨"bool", _, rfl, ?_⟩
  cases mode with
  | list => cases h
  | _ => rfl

theorem encloses_counted (h : mode.unhashable? = none) :
    Encloses clauses (.map (counted side mode clauses)) := by
  unfold counted
  split
  · exact ⟨"dis_max", _, rfl, rfl⟩
  · exact encloses_atLeast h

/-- Every wrapper lists its clauses and nothing else. -/
theorem encloses_of_wrap (h : mode.unhashable? = none) {m : Mapping}
    (hwrap : wrap side mode clauses = .ok m) : Encloses clauses (.map m) := by
  cases hname : JoinMode.ofValue? mode with
  | none =>
    rw [wrap_of_unnamed hname] at hwrap
    obtain ⟨-, -, hm⟩ := bind_eq_ok.mp hwrap
    obtain rfl := Except.ok.inj hm
    exact encloses_counted h
  | some name =>
    simp only [wrap, hname] at hwrap
    cases name with
    | disMax =>
      cases side with
      | queries =>
        obtain rfl := Except.ok.inj hwrap
        exact encloses_single
      | filters =>
        obtain rfl := Except.ok.inj hwrap
        exact encloses_atLeast h
    | _ =>
      obtain rfl := Except.ok.inj hwrap
      exact encloses_single

/-- A clause is smaller than the wrapper around it. -/
theorem Encloses.ne_clause {v x : Value} (h : Encloses clauses v) (hx : x ∈ clauses) : v ≠ x := by
  obtain ⟨key, body, rfl, hlists⟩ := h
  have hmem : clauses ∈ clauseLists body := by
    rw [hlists]
    exact List.mem_singleton_self clauses
  obtain ⟨e, he, hlist⟩ := List.mem_filterMap.mp hmem
  obtain ⟨name, value⟩ := e
  have hvalue : value = .list clauses := by
    cases value with
    | list => exact congrArg Value.list (Option.some.inj hlist)
    | _ => cases hlist
  subst hvalue
  rintro rfl
  have hinner := List.sizeOf_lt_of_mem hx
  have houter := List.sizeOf_lt_of_mem he
  simp only [entry, Value.map.sizeOf_spec, Value.list.sizeOf_spec, List.cons.sizeOf_spec,
    Prod.mk.sizeOf_spec] at hinner houter
  omega

/-! ## The policy -/

/-- What a join makes of the clauses that count. -/
structure Follows (mode : Value) (clauses : List Value) (result : Option Value) : Prop where
  none_iff : result = none ↔ clauses = []
  lone_iff : ∀ x ∈ clauses, result = some x ↔ clauses = [x] ∧ mode ≠ .text "must_not"
  wrapped : clauses ≠ [] → (∀ x, clauses = [x] → mode = .text "must_not") →
    ∃ v, result = some v ∧ Encloses clauses v

theorem Joins.follows (h : mode.unhashable? = none) (hjoins : Joins side mode fragments result) :
    Follows mode (present fragments) result := by
  refine ⟨hjoins.eq_none_iff, ?_, ?_⟩
  · intro x hx
    cases hjoins with
    | nothing hnone =>
      rw [hnone] at hx
      cases hx
    | lone hlone hmode =>
      have hbare : mode ≠ .text "must_not" :=
        mt Value.isText_iff.mpr (Bool.eq_false_iff.mp hmode)
      rw [hlone] at hx ⊢
      obtain rfl := List.mem_singleton.mp hx
      exact ⟨fun _ ↦ ⟨rfl, hbare⟩, fun _ ↦ rfl⟩
    | several _ hnegated hwrap =>
      constructor
      · -- a wrapper is none of its clauses
        intro heq
        exact absurd (Option.some.inj heq) ((encloses_of_wrap h hwrap).ne_clause hx)
      · rintro ⟨hlone, hbare⟩
        exact absurd (Value.isText_iff.mp (hnegated x hlone)) hbare
  · intro hsome hnegated
    cases hjoins with
    | nothing hnone => exact absurd hnone hsome
    | lone hlone hmode =>
      exact absurd (Value.isText_iff.mpr (hnegated _ hlone)) (Bool.eq_false_iff.mp hmode)
    | several _ _ hwrap => exact ⟨_, rfl, encloses_of_wrap h hwrap⟩

/-! ## Other fragments, the same join -/

/-- What does not count makes no difference, wherever it stands. -/
theorem join_insert {v : Value} (hv : v.truthy = false) (side : JoinSide) (mode : Value)
    (xs ys : List Value) : join side mode (xs ++ v :: ys) = join side mode (xs ++ ys) := by
  apply join_congr
  rw [present_append, present_append]
  congr 1
  exact List.filter_cons_of_neg (by simp [hv])

/-- A clause on its own joins to itself. -/
theorem join_singleton {v : Value} (hv : v.truthy = true) (hmode : mode ≠ .text "must_not") :
    join side mode [v] = .ok (some v) := by
  have hbare : mode.isText JoinMode.mustNot.name = false :=
    Bool.eq_false_iff.mpr (mt Value.isText_iff.mp hmode)
  rw [join, present_singleton hv, hbare]
  rfl

/-- What comes of a join joins to itself, unless it would be negated again. -/
theorem Joins.join_self (h : Joins side mode fragments result) (hmode : mode ≠ .text "must_not") :
    join side mode [result.getD .null] = .ok result := by
  cases result with
  | none => rfl
  | some v => exact join_singleton h.truthy hmode

/-! ## The two sides -/

/-- Only the best of the queries, with a tie breaker or without, has nothing like it for filters. -/
theorem wrap_sides (hname : mode ≠ .text "dis_max") (hfraction : ∀ x, mode ≠ .real x)
    (clauses : List Value) :
    wrap .queries mode clauses = wrap .filters mode clauses ∨
      ∃ key ∈ ["and", "or"], mode = .text key ∧
        ∀ side, wrap side mode clauses = .ok (groupOf side key clauses) := by
  cases hnamed : JoinMode.ofValue? mode with
  | none =>
    rw [wrap_of_unnamed hnamed, wrap_of_unnamed hnamed]
    cases mode with
    | real x => exact absurd rfl (hfraction x)
    | _ => exact .inl rfl
  | some name =>
    obtain rfl := JoinMode.eq_name_of_ofValue? hnamed
    cases name with
    | and => exact .inr ⟨"and", by simp, rfl, fun _ ↦ rfl⟩
    | or => exact .inr ⟨"or", by simp, rfl, fun _ ↦ rfl⟩
    | disMax => exact absurd rfl hname
    | _ => exact .inl rfl

theorem join_sides (hname : mode ≠ .text "dis_max") (hfraction : ∀ x, mode ≠ .real x)
    (fragments : List Value) :
    join .queries mode fragments = join .filters mode fragments ∨
      ∃ key ∈ ["and", "or"], mode = .text key ∧
        ∀ side, join side mode fragments =
          .ok (some (.map (groupOf side key (present fragments)))) := by
  cases hjoined : Joined.of (mode.isText JoinMode.mustNot.name) (present fragments) with
  | nothing | lone =>
    refine .inl ?_
    rw [join, join, hjoined]
  | several clauses =>
    obtain rfl := Joined.of_eq_several hjoined
    rcases wrap_sides hname hfraction (present fragments) with heq | ⟨key, hkey, hmode, hgroup⟩
    · refine .inl ?_
      rw [join, join, hjoined]
      exact congrArg (Except.map _) heq
    · refine .inr ⟨key, hkey, hmode, fun side ↦ ?_⟩
      rw [join, hjoined]
      exact congrArg (Except.map _) (hgroup side)

/--
The policy of joins under a hashable mode, for both sides.  A join ends well; nothing comes of it
exactly if nothing counts, a clause itself exactly if no other counts and it is not to be negated,
and otherwise a wrapper that lists the clauses that count.  What does not count can be put in and
taken out anywhere, and the join of a join, unless it negates, is that join.  Apart from the best of
the queries and fractions both sides come to the same, up to the name of the list in a group.
-/
theorem join_policy (hmode : mode.unhashable? = none) (fragments : List Value) :
    (∀ side, ∃ result, join side mode fragments = .ok result ∧
      Follows mode (present fragments) result ∧
      (mode ≠ .text "must_not" → join side mode [result.getD .null] = .ok result)) ∧
    (∀ side xs ys v, v.truthy = false →
      join side mode (xs ++ v :: ys) = join side mode (xs ++ ys)) ∧
    (mode ≠ .text "dis_max" → (∀ x, mode ≠ .real x) →
      join .queries mode fragments = join .filters mode fragments ∨
      ∃ key ∈ ["and", "or"], mode = .text key ∧
        ∀ side, join side mode fragments =
          .ok (some (.map [entry key (.map [entry side.name (.list (present fragments))])]))) := by
  refine ⟨fun side ↦ ?_, fun side xs ys v hv ↦ join_insert hv side mode xs ys, ?_⟩
  · obtain ⟨result, hresult⟩ := exists_join hmode side fragments
    have hjoins := joins_of_eq_ok hresult
    exact ⟨result, hresult, hjoins.follows hmode, hjoins.join_self⟩
  · intro hname hfraction
    exact join_sides hname hfraction fragments

/-- A group of two among fragments that do not count, and a lone clause that is negated. -/
theorem join_policy_of_gaps :
    let a : Value := .map [entry "exists" (.text "a")]
    let b : Value := .map [entry "exists" (.text "b")]
    let several : List Value := [.null, a, .map [], b]
    let lone : List Value := [.map [], a, .null]
    (Value.text "or").unhashable? = none ∧ (Value.text "must_not").unhashable? = none ∧
      (∃ v, join .filters (.text "or") several = .ok (some v) ∧ Encloses [a, b] v ∧
        join .filters (.text "or") [v] = .ok (some v)) ∧
      ∃ v, join .queries (.text "must_not") lone = .ok (some v) ∧ Encloses [a] v ∧ v ≠ a ∧
        join .filters (.text "must_not") lone = .ok (some v) := by
  intro a b several lone
  obtain ⟨hor, -, -⟩ := @join_policy (.text "or") rfl several
  obtain ⟨hnot, -, hsides⟩ := @join_policy (.text "must_not") rfl lone
  refine ⟨rfl, rfl, ?_, ?_⟩
  · obtain ⟨result, hresult, hfollows, hself⟩ := hor .filters
    obtain ⟨v, rfl, hv⟩ := hfollows.wrapped (List.cons_ne_nil _ _) nofun
    exact ⟨v, hresult, hv, hself (by simp)⟩
  · obtain ⟨result, hresult, hfollows, -⟩ := hnot .queries
    obtain ⟨v, rfl, hv⟩ := hfollows.wrapped (List.cons_ne_nil _ _) fun _ _ ↦ rfl
    refine ⟨v, hresult, hv, hv.ne_clause (List.mem_singleton_self a), ?_⟩
    rcases hsides (by simp) nofun with heq | ⟨key, hkey, hmode, -⟩
    · rw [← heq, hresult]
    · obtain rfl := Value.text.inj hmode
      exact absurd hkey (by simp)

end Join

end SearchCriteria
