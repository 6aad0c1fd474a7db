import SearchCriteria.Proofs.Criteria.Combining
import SearchCriteria.Proofs.Expression.Rendering
import SearchCriteria.Proofs.Join
import SearchCriteria.Request

/-!
# What can be compiled

A criteria with a history compiles if its nodes render, its join modes can be looked up and its
strategy has a text: nothing else in it is ever refused.
-/

namespace SearchCriteria

theorem exists_mapM {α β ε : Type} {f : α → Except ε β} {xs : List α}
    (h : ∀ x ∈ xs, ∃ y, f x = .ok y) : ∃ ys, xs.mapM f = .ok ys := by
  induction xs with
  | nil => exact ⟨[], rfl⟩
  | cons x xs ih =>
    obtain ⟨⟨y, hy⟩, hxs⟩ := List.forall_mem_cons.mp h
    obtain ⟨ys, hys⟩ := ih hxs
    rw [List.mapM_cons]
    exact ⟨y :: ys, bind_eq_ok.mpr ⟨y, hy, bind_eq_ok.mpr ⟨ys, hys, rfl⟩⟩⟩

/-- A traversal ends well exactly if each of its steps does. -/
theorem exists_mapM_iff {α β ε : Type} {f : α → Except ε β} {xs : List α} :
    (∃ ys, xs.mapM f = .ok ys) ↔ ∀ x ∈ xs, ∃ y, f x = .ok y := by
  refine ⟨?_, exists_mapM⟩
  rintro ⟨ys, h⟩
  induction xs generalizing ys with
  | nil => simp
  | cons x xs ih =>
    rw [List.mapM_cons] at h
    obtain ⟨y, hy, h⟩ := bind_eq_ok.mp h
    obtain ⟨zs, hzs, -⟩ := bind_eq_ok.mp h
    exact List.forall_mem_cons.mpr ⟨⟨y, hy⟩, ih zs hzs⟩

/-- Clauses whose nodes render have fragments. -/
theorem exists_clauseFragments {clauses : List Value} (hclause : ∀ v ∈ clauses, v.IsClause)
    (hnode : ∀ e, .node e ∈ clauses → e.Renderable) :
    ∃ fragments, clauseFragments clauses = .ok fragments := by
  refine exists_mapM fun v hv ↦ ?_
  cases v with
  | node e =>
    obtain ⟨f, hf⟩ := e.exists_render_iff.mpr (hnode e hv)
    exact ⟨.map f, bind_eq_ok.mpr ⟨f, hf, rfl⟩⟩
  | map entries => exact ⟨.map entries, rfl⟩
  | _ => exact (hclause _ hv).elim

/-- A body has a start, unless a query is filtered by a strategy that has no text. -/
theorem Request.base_or (q f strategy : Option Value) :
    (∃ start, Request.base q f strategy = .ok start) ∨
      ∃ fault, q.isSome = true ∧ f.isSome = true ∧
        (strategy.filter Value.truthy).mapM Value.display = .error fault := by
  cases q with
  | none => cases f <;> exact .inl ⟨_, rfl⟩
  | some q =>
    cases f with
    | none => exact .inl ⟨_, rfl⟩
    | some f =>
      unfold Request.base
      cases (strategy.filter Value.truthy).mapM Value.display with
      | ok text => exact .inl ⟨_, rfl⟩
      | error fault => exact .inr ⟨fault, rfl, rfl, rfl⟩

namespace Criteria

/-- The text of the strategy that a query is filtered by, if there is one. -/
def strategyText (c : Criteria) : Except Fault (Option String) :=
  ((c.option? "strategy").filter Value.truthy).mapM Value.display

/-- The nodes render, and the join modes can be looked up. -/
structure Joinable (c : Criteria) : Prop where
  queries (e : Expression) (he : .node e ∈ c.queries) : e.Renderable
  filters (e : Expression) (he : .node e ∈ c.filters) : e.Renderable
  postFilters (e : Expression) (he : .node e ∈ c.postFilters) : e.Renderable
  modes (name : String) (hname : name ∈ Config.modeNames) : (c.mode name).unhashable? = none

/-- The clauses can be joined, and a strategy, which is put down as text, has one. -/
structure Compilable (c : Criteria) : Prop extends c.Joinable where
  strategy : ∃ text, c.strategyText = .ok text

variable {c : Criteria}

theorem hashable_postFilterMode (hc : c.Joinable) : c.postFilterMode.unhashable? = none := by
  unfold postFilterMode
  cases hmode : c.options.present? "post_filter_mode" with
  | none => exact hc.modes "filter_mode" (by decide)
  | some mode =>
    have hlook : c.mode "post_filter_mode" = mode := by
      unfold Mapping.present? at hmode
      split at hmode
      · cases hmode
      · cases hmode
      · rename_i hvalue
        obtain rfl := Option.some.inj hmode
        rw [Criteria.mode, option?, hvalue]
        rfl
    rw [Option.getD_some, ← hlook]
    exact hc.modes "post_filter_mode" (by decide)

theorem exists_joinedQuery (hs : c.Settled) (hc : c.Joinable) :
    ∃ q, c.joinedQuery = .ok q := by
  obtain ⟨fragments, hfragments⟩ := exists_clauseFragments hs.queries hc.queries
  obtain ⟨q, hq⟩ := Join.exists_join (hc.modes "query_mode" (by decide)) .queries fragments
  exact ⟨q, bind_eq_ok.mpr ⟨fragments, hfragments, hq⟩⟩

theorem exists_joinedPostFilter (hs : c.Settled) (hc : c.Joinable) :
    ∃ p, c.joinedPostFilter = .ok p := by
  obtain ⟨fragments, hfragments⟩ := exists_clauseFragments hs.postFilters hc.postFilters
  obtain ⟨p, hp⟩ := Join.exists_join (hashable_postFilterMode hc) .filters fragments
  exact ⟨p, bind_eq_ok.mpr ⟨fragments, hfragments, hp⟩⟩

theorem exists_filterParts {mode : Value} (h : mode.unhashable? = none) (fragments : List Value) :
    ∃ parts, filterParts mode fragments = .ok parts := by
  unfold filterParts
  split
  · exact ⟨fragments, rfl⟩
  · obtain ⟨joined, hjoined⟩ := Join.exists_join h .filters fragments
    exact ⟨joined.toList, bind_eq_ok.mpr ⟨joined, hjoined, rfl⟩⟩

theorem exists_joinedFilter (hs : c.Settled) (hc : c.Joinable) :
    ∃ f, c.joinedFilter = .ok f := by
  obtain ⟨fragments, hfragments⟩ := exists_clauseFragments hs.filters hc.filters
  obtain ⟨parts, hparts⟩ := exists_filterParts (hc.modes "filter_mode" (by decide)) fragments
  obtain ⟨types, htypes⟩ : ∃ types, c.joinedTypes = .ok types := Join.exists_join rfl _ _
  obtain ⟨f, hf⟩ : ∃ f, Join.join .filters (.text JoinMode.and.name) (types.toList ++ parts) =
    .ok f := Join.exists_join rfl _ _
  exact ⟨f, bind_eq_ok.mpr ⟨fragments, hfragments, bind_eq_ok.mpr ⟨parts, hparts,
    bind_eq_ok.mpr ⟨types, htypes, hf⟩⟩⟩⟩

/-- Where a query is filtered by a strategy without a text, that is what compiling fails for. -/
theorem compile_eq_error {q f : Value} {fault : Fault} (hq : c.joinedQuery = .ok (some q))
    (hf : c.joinedFilter = .ok (some f)) (h : c.strategyText = .error fault) :
    c.compile = .error fault := by
  have hbase : Request.base (some q) (some f) (c.option? "strategy") = .error fault := by
    change (c.strategyText >>= _) = Except.error fault
    rw [h]
    rfl
  unfold compile Request.body
  rw [hq, hf]
  change (Request.base (some q) (some f) (c.option? "strategy") >>= _) >>= _ = Except.error fault
  rw [hbase]
  rfl

/-- A strategy without a text is a value without one. -/
theorem exists_of_strategyText {fault : Fault} (h : c.strategyText = .error fault) :
    ∃ v, c.option? "strategy" = some v ∧ v.display = .error fault := by
  unfold strategyText at h
  cases hoption : c.option? "strategy" with
  | none =>
    rw [hoption] at h
    cases h
  | some v =>
    refine ⟨v, rfl, ?_⟩
    rw [hoption, Option.filter_some] at h
    split at h
    · cases hdisplay : v.display with
      | ok => simp [hdisplay] at h
      | error => simpa [hdisplay] using h
    · cases h

/--
Clauses that can be joined compile to a document, unless there are both a query and a filter, and
the strategy to put down beside them has no text.
-/
theorem compile_or (hs : c.Settled) (hc : c.Joinable) :
    (∃ body, c.compile = .ok (Request.document body)) ∨
      ∃ q f fault, c.joinedQuery = .ok (some q) ∧ c.joinedFilter = .ok (some f) ∧
        c.strategyText = .error fault := by
  obtain ⟨q, hq⟩ := exists_joinedQuery hs hc
  obtain ⟨f, hf⟩ := exists_joinedFilter hs hc
  obtain ⟨p, hp⟩ := exists_joinedPostFilter hs hc
  rcases Request.base_or q f (c.option? "strategy") with
    ⟨start, hstart⟩ | ⟨fault, hqsome, hfsome, htext⟩
  · have hbody : ∃ body, Request.body c = .ok body := by
      unfold Request.body
      rw [hq, hf]
      change ∃ body, (Request.base q f (c.option? "strategy") >>= _) = Except.ok body
      rw [hstart, hp]
      cases hsimple : Request.isSimple c <;> exact ⟨_, rfl⟩
    obtain ⟨body, hbody⟩ := hbody
    exact .inl ⟨body, bind_eq_ok.mpr ⟨body, hbody, rfl⟩⟩
  · obtain ⟨q, rfl⟩ := Option.isSome_iff_exists.mp hqsome
    obtain ⟨f, rfl⟩ := Option.isSome_iff_exists.mp hfsome
    exact .inr ⟨q, f, fault, hq, hf, htext⟩

/-- A criteria that can be compiled compiles to a document. -/
theorem exists_compile (hs : c.Settled) (hc : c.Compilable) :
    ∃ body, c.compile = .ok (Request.document body) := by
  refine (compile_or hs hc.toJoinable).resolve_right ?_
  rintro ⟨_, _, fault, -, -, hfault⟩
  obtain ⟨text, htext⟩ := hc.strategy
  cases htext.symm.trans hfault

end Criteria

end SearchCriteria
