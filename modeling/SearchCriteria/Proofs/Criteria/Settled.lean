import SearchCriteria.Proofs.Criteria.Updating
import SearchCriteria.Proofs.Distinct

/-!
# What the storages hold

Every storage of a criteria holds what its own update rule leaves as it is.  `Settled` says so,
storage by storage; a new criteria is settled, and updates keep it so.
-/

namespace SearchCriteria

/-- The names of the three join modes among the options. -/
def Config.modeNames : List String := ["query_mode", "filter_mode", "post_filter_mode"]

theorem Config.keys_defaultOptions (config : Config) :
    Association.keys config.defaultOptions = modeNames.map .text := rfl

/-- The default options have three different keys. -/
theorem Config.distinctKeys_defaultOptions (config : Config) :
    config.defaultOptions.DistinctKeys := by
  change (Association.keys config.defaultOptions).Pairwise fun k l ↦ Value.sameKey k l = false
  rw [keys_defaultOptions]
  decide

namespace Criteria

/-- Names without repetitions, none of them blank. -/
structure SettledNames (names : List String) : Prop where
  separate : Distinct.Separate (fun n m ↦ n == m) names
  not_blank (n : String) (hn : n ∈ names) : Text.isBlank n = false

/-- What the storages of a criteria hold, whatever its history. -/
structure Settled (c : Criteria) : Prop where
  queries (v : Value) (hv : v ∈ c.queries) : v.IsClause
  filters (v : Value) (hv : v ∈ c.filters) : v.IsClause
  postFilters (v : Value) (hv : v ∈ c.postFilters) : v.IsClause
  sort (v : Value) (hv : v ∈ c.sort) : v.IsSortKey
  fields : SettledNames c.fields
  types : SettledNames c.types
  scores_leaf (v : Value) (hv : v ∈ c.scores) : v.IsLeaf
  scores_not_blank (v : Value) (hv : v ∈ c.scores) : v.isBlank = false
  options : c.options.DistinctKeys
  /-- The join modes come first among the options. -/
  modes : Config.modeNames.map .text <+: Association.keys c.options
  requestOptions : c.requestOptions.DistinctKeys
  facets : c.facets.DistinctKeys
  aggregations : c.aggregations.DistinctKeys
  suggest : c.suggest.DistinctKeys
  scriptFields : c.scriptFields.DistinctKeys

/-! ## Storage by storage -/

theorem SettledNames.nil : SettledNames [] := ⟨.nil, fun _ hn ↦ absurd hn List.not_mem_nil⟩

theorem SettledNames.kept {names : List String} (h : SettledNames names) (purge : Option Bool) :
    SettledNames (kept purge names) := by
  unfold Criteria.kept
  split
  · exact .nil
  · exact h

theorem SettledNames.unionNames {names others : List String} (h : SettledNames names)
    (hothers : ∀ n ∈ others, Text.isBlank n = false) : SettledNames (unionNames names others) where
  separate := Distinct.separate_union names others
  not_blank n hn := (Distinct.mem_union hn).elim (h.not_blank n) (hothers n)

theorem mem_of_mem_kept {α : Type} {purge : Option Bool} {items : List α} {x : α}
    (h : x ∈ kept purge items) : x ∈ items := by
  unfold kept at h
  split at h
  · exact absurd h List.not_mem_nil
  · exact h

theorem requireClause_eq_ok {s : Storage} {v : Value} (h : requireClause s v = .ok ())
    (hblank : v.isBlank = false) : v.IsClause := by
  cases v with
  | node => trivial
  | map entries =>
    rintro rfl
    exact Bool.noConfusion hblank
  | _ => cases h

/-- What a clause patch adds are clauses. -/
theorem isClause_of_clausePatch {s : Storage} {patch : Value} {items : List Value}
    (h : clausePatch s patch = .ok items) (v : Value) (hv : v ∈ items) : v.IsClause := by
  obtain ⟨⟨⟩, hforM, hitems⟩ := bind_eq_ok.mp h
  obtain rfl := Except.ok.inj hitems
  exact requireClause_eq_ok (forM_eq_ok.mp hforM v hv) (Patch.not_blank_of_mem_items hv)

/-- Two lists of items that have a property make one. -/
theorem forall_mem_append {α : Type} {p : α → Prop} {xs ys : List α} (hx : ∀ x ∈ xs, p x)
    (hy : ∀ y ∈ ys, p y) : ∀ z ∈ xs ++ ys, p z :=
  List.forall_mem_append.mpr ⟨hx, hy⟩

theorem modes_overlay {options : Mapping}
    (h : Config.modeNames.map .text <+: Association.keys options) (entries : Mapping) :
    Config.modeNames.map .text <+: Association.keys (options.overlay entries) :=
  h.trans (Association.keys_isPrefix_overlay options entries)

/-! ## New and updated criteria -/

theorem settled_start (config : Config) (seed : Mapping) : (start config seed).Settled where
  queries _ hv := absurd hv List.not_mem_nil
  filters _ hv := absurd hv List.not_mem_nil
  postFilters _ hv := absurd hv List.not_mem_nil
  sort _ hv := absurd hv List.not_mem_nil
  fields := .nil
  types := .nil
  scores_leaf _ hv := absurd hv List.not_mem_nil
  scores_not_blank _ hv := absurd hv List.not_mem_nil
  options := config.distinctKeys_defaultOptions.overlay seed
  modes := modes_overlay (List.prefix_refl _) seed
  requestOptions := .nil
  facets := .nil
  aggregations := .nil
  suggest := .nil
  scriptFields := .nil

theorem Settled.updated {c d : Criteria} {u : Update} (hc : c.Settled) (h : Updated c u d) :
    d.Settled := by
  cases h with
  | queries h =>
    exact { hc with queries := forall_mem_append hc.queries (isClause_of_clausePatch h) }
  | filters h =>
    exact { hc with filters := forall_mem_append hc.filters (isClause_of_clausePatch h) }
  | postFilters h =>
    exact { hc with postFilters := forall_mem_append hc.postFilters (isClause_of_clausePatch h) }
  | sort =>
    exact { hc with
      sort := forall_mem_append (fun v hv ↦ hc.sort v (mem_of_mem_kept hv)) fun _ ↦
        Patch.isSortKey_of_mem_sortSpecs }
  | fields h =>
    exact { hc with
      fields := (hc.fields.kept _).unionNames (Patch.not_blank_of_mem_names h) }
  | types h =>
    exact { hc with types := (hc.types.kept _).unionNames (Patch.not_blank_of_mem_names h) }
  | scores =>
    exact { hc with
      scores_leaf := forall_mem_append hc.scores_leaf fun _ ↦ Patch.isLeaf_of_mem_items
      scores_not_blank := forall_mem_append hc.scores_not_blank fun _ ↦
        Patch.not_blank_of_mem_items }
  | options =>
    exact { hc with options := hc.options.overlay _, modes := modes_overlay hc.modes _ }
  | requestOptions => exact { hc with requestOptions := hc.requestOptions.overlay _ }
  | facets => exact { hc with facets := hc.facets.overlay _ }
  | aggregations => exact { hc with aggregations := hc.aggregations.overlay _ }
  | suggest => exact { hc with suggest := hc.suggest.overlay _ }
  | scriptFields => exact { hc with scriptFields := hc.scriptFields.overlay _ }

theorem Settled.after {c : Criteria} (hc : c.Settled) (u : Update) : (c.after u).Settled := by
  rcases updated_or_refused u with h | h
  · obtain ⟨d, hd⟩ := h c
    rw [hd.after_eq]
    exact hc.updated hd
  · rw [after_of_refused (h c)]
    exact hc

theorem Settled.replay {c : Criteria} (hc : c.Settled) (us : List Update) :
    (c.replay us).Settled := by
  induction us generalizing c with
  | nil => exact hc
  | cons u us ih => exact ih (hc.after u)

end Criteria

end SearchCriteria
