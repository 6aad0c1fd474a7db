import SearchCriteria.Proofs.Criteria.Settled

/-!
# Combining criteria

Merging runs every storage's update rule on what the other criteria holds there.  On settled contents
the rules change nothing, so merging is `combine`: lists are appended, names united and mappings
overlaid.  Hence no merge of criteria with a history of their own is ever refused.
-/

namespace SearchCriteria.Criteria

/-- Both criteria's contents, storage by storage, the second after or over the first. -/
def combine (a b : Criteria) : Criteria where
  queries := a.queries ++ b.queries
  filters := a.filters ++ b.filters
  postFilters := a.postFilters ++ b.postFilters
  sort := a.sort ++ b.sort
  fields := unionNames a.fields b.fields
  types := unionNames a.types b.types
  scores := a.scores ++ b.scores
  options := a.options.overlay b.options
  requestOptions := a.requestOptions.overlay b.requestOptions
  facets := a.facets.overlay b.facets
  aggregations := a.aggregations.overlay b.aggregations
  suggest := a.suggest.overlay b.suggest
  scriptFields := a.scriptFields.overlay b.scriptFields

/-! ## Merging -/

/-- One storage combined with the other criteria's. -/
def absorb (other : Criteria) (c : Criteria) : Storage → Criteria
  | .queries => { c with queries := c.queries ++ other.queries }
  | .filters => { c with filters := c.filters ++ other.filters }
  | .postFilters => { c with postFilters := c.postFilters ++ other.postFilters }
  | .sort => { c with sort := c.sort ++ other.sort }
  | .fields => { c with fields := unionNames c.fields other.fields }
  | .types => { c with types := unionNames c.types other.types }
  | .scores => { c with scores := c.scores ++ other.scores }
  | .options => { c with options := c.options.overlay other.options }
  | .requestOptions =>
    { c with requestOptions := c.requestOptions.overlay other.requestOptions }
  | .facets => { c with facets := c.facets.overlay other.facets }
  | .aggregations => { c with aggregations := c.aggregations.overlay other.aggregations }
  | .suggest => { c with suggest := c.suggest.overlay other.suggest }
  | .scriptFields => { c with scriptFields := c.scriptFields.overlay other.scriptFields }

theorem foldl_absorb (a b : Criteria) : Storage.all.foldl (absorb b) a = a.combine b := rfl

theorem clausePatch_eq_self (s : Storage) {items : List Value} (h : ∀ v ∈ items, v.IsClause) :
    clausePatch s (.list items) = .ok items := by
  have hitems : Patch.items (.list items) = items :=
    Patch.items_eq_self (fun v hv ↦ (h v hv).isLeaf) fun v hv ↦ (h v hv).not_blank
  have hforM : items.forM (requireClause s) = .ok () := by
    refine forM_eq_ok.mpr fun v hv ↦ ?_
    have hclause := h v hv
    cases v with
    | node | map => rfl
    | _ => exact hclause.elim
  rw [clausePatch, hitems]
  exact bind_eq_ok.mpr ⟨(), hforM, rfl⟩

/-- What a settled criteria holds in a storage is accepted there as it is. -/
theorem Settled.updated_content {other : Criteria} (h : other.Settled) (c : Criteria)
    (s : Storage) :
    Updated c { storage := s, patch := other.content s } (absorb other c s) := by
  cases s with
  | queries => exact .queries (clausePatch_eq_self _ h.queries)
  | filters => exact .filters (clausePatch_eq_self _ h.filters)
  | postFilters => exact .postFilters (clausePatch_eq_self _ h.postFilters)
  | sort =>
    have hsort : Updated c { storage := .sort, patch := .list other.sort } _ := .sort
    rw [Patch.sortSpecs_eq_self h.sort] at hsort
    exact hsort
  | fields => exact .fields (Patch.names_eq_self h.fields.not_blank)
  | types => exact .types (Patch.names_eq_self h.types.not_blank)
  | scores =>
    have hscores : Updated c { storage := .scores, patch := .list other.scores } _ := .scores
    rw [Patch.items_eq_self h.scores_leaf h.scores_not_blank] at hscores
    exact hscores
  | options => exact .options rfl
  | requestOptions => exact .requestOptions rfl
  | facets => exact .facets rfl
  | aggregations => exact .aggregations rfl
  | suggest => exact .suggest rfl
  | scriptFields => exact .scriptFields rfl

/-- A settled criteria is merged in place without a fault. -/
theorem Settled.run_mergeInto {other : Criteria} (h : other.Settled) (c : Criteria) :
    (mergeInto other).run c = .ok () (c.combine other) := by
  -- the storages left to merge, whatever is merged already
  have hfold : ∀ (ss : List Storage) (c : Criteria),
      (ss.forM fun s ↦ edit { storage := s, patch := other.content s }).run c =
        .ok () (ss.foldl (absorb other) c) := by
    intro ss
    induction ss with
    | nil => exact fun _ ↦ rfl
    | cons s ss ih =>
      intro c
      have hstep := (h.updated_content c s).run_edit
      change EStateM.bind _ _ c = _
      rw [EStateM.bind, show edit _ c = .ok () (absorb other c s) from hstep]
      exact ih (absorb other c s)
  rw [← foldl_absorb]
  exact hfold Storage.all c

theorem Settled.merge_eq {other : Criteria} (h : other.Settled) (c : Criteria) :
    c.merge other = .ok (c.combine other) := by
  simp only [merge, h.run_mergeInto c]

theorem Settled.combine {a b : Criteria} (ha : a.Settled) (hb : b.Settled) :
    (a.combine b).Settled where
  queries := forall_mem_append ha.queries hb.queries
  filters := forall_mem_append ha.filters hb.filters
  postFilters := forall_mem_append ha.postFilters hb.postFilters
  sort := forall_mem_append ha.sort hb.sort
  fields := ha.fields.unionNames hb.fields.not_blank
  types := ha.types.unionNames hb.types.not_blank
  scores_leaf := forall_mem_append ha.scores_leaf hb.scores_leaf
  scores_not_blank := forall_mem_append ha.scores_not_blank hb.scores_not_blank
  options := ha.options.overlay b.options
  modes := modes_overlay ha.modes b.options
  requestOptions := ha.requestOptions.overlay b.requestOptions
  facets := ha.facets.overlay b.facets
  aggregations := ha.aggregations.overlay b.aggregations
  suggest := ha.suggest.overlay b.suggest
  scriptFields := ha.scriptFields.overlay b.scriptFields

/-! ## Reachable criteria -/

/-- What is created starts with the options that were given. -/
theorem exists_start_of_create {config : Config} {options : Value} {c : Criteria}
    (h : create config options = .ok c) : ∃ seed, c = start config seed := by
  cases options with
  | null | map => exact ⟨_, (Except.ok.inj h).symm⟩
  | _ => cases h

/--
A criteria that some history leads to: it was created, updated in place (a refused update included),
merged into a new one or in place.  A clone is the same value.
-/
inductive Reachable : Criteria → Prop
  | create {config options c} (h : Criteria.create config options = .ok c) : Reachable c
  | after {c} (hc : Reachable c) (u : Update) : Reachable (c.after u)
  | merge {c other merged} (hc : Reachable c) (hother : Reachable other)
      (h : c.merge other = .ok merged) : Reachable merged
  | mergeInto {c other} (hc : Reachable c) (hother : Reachable other) :
      Reachable (left ((mergeInto other).run c))

theorem reachable_start (config : Config) : Reachable (start config []) :=
  .create (show create config .null = .ok (start config []) from rfl)

theorem Reachable.replay {c : Criteria} (hc : Reachable c) (us : List Update) :
    Reachable (c.replay us) := by
  induction us generalizing c with
  | nil => exact hc
  | cons u us ih => exact ih (hc.after u)

theorem Reachable.settled {c : Criteria} (hc : Reachable c) : c.Settled := by
  induction hc with
  | create h =>
    obtain ⟨seed, rfl⟩ := exists_start_of_create h
    exact settled_start _ seed
  | after _ u ih => exact ih.after u
  | merge _ _ h ihc ihother =>
    rw [ihother.merge_eq] at h
    obtain rfl := Except.ok.inj h
    exact ihc.combine ihother
  | mergeInto _ _ ihc ihother =>
    rw [ihother.run_mergeInto]
    exact ihc.combine ihother

end SearchCriteria.Criteria
