import SearchCriteria.Criteria.Basic
import SearchCriteria.Proofs.Patch

/-!
# What updates do

`Updated c u d` lists, storage by storage, what an accepted update makes of a criteria.  Whether an
update is accepted hangs on its patch alone, never on the criteria, so a run of updates in which the
refused ones are skipped depends on the accepted ones only.
-/

namespace SearchCriteria.Criteria

/-! ## Accepted updates -/

/-- The update turns the first criteria into the second. -/
inductive Updated (c : Criteria) : Update → Criteria → Prop
  | queries {patch items} (h : clausePatch .queries patch = .ok items) :
      Updated c { storage := .queries, patch } { c with queries := c.queries ++ items }
  | filters {patch items} (h : clausePatch .filters patch = .ok items) :
      Updated c { storage := .filters, patch } { c with filters := c.filters ++ items }
  | postFilters {patch items} (h : clausePatch .postFilters patch = .ok items) :
      Updated c { storage := .postFilters, patch } { c with postFilters := c.postFilters ++ items }
  | sort {patch purge} :
      Updated c { storage := .sort, patch, purge }
        { c with sort := kept purge c.sort ++ Patch.sortSpecs patch }
  | fields {patch purge names} (h : Patch.names patch = .ok names) :
      Updated c { storage := .fields, patch, purge }
        { c with fields := unionNames (kept purge c.fields) names }
  | types {patch purge names} (h : Patch.names patch = .ok names) :
      Updated c { storage := .types, patch, purge }
        { c with types := unionNames (kept purge c.types) names }
  | scores {patch} :
      Updated c { storage := .scores, patch } { c with scores := c.scores ++ Patch.items patch }
  | options {patch entries} (h : mapPatch .options patch = .ok entries) :
      Updated c { storage := .options, patch } { c with options := c.options.overlay entries }
  | requestOptions {patch entries} (h : mapPatch .requestOptions patch = .ok entries) :
      Updated c { storage := .requestOptions, patch }
        { c with requestOptions := c.requestOptions.overlay entries }
  | facets {patch entries} (h : mapPatch .facets patch = .ok entries) :
      Updated c { storage := .facets, patch } { c with facets := c.facets.overlay entries }
  | aggregations {patch entries} (h : mapPatch .aggregations patch = .ok entries) :
      Updated c { storage := .aggregations, patch }
        { c with aggregations := c.aggregations.overlay entries }
  | suggest {patch entries} (h : mapPatch .suggest patch = .ok entries) :
      Updated c { storage := .suggest, patch } { c with suggest := c.suggest.overlay entries }
  | scriptFields {patch entries} (h : mapPatch .scriptFields patch = .ok entries) :
      Updated c { storage := .scriptFields, patch }
        { c with scriptFields := c.scriptFields.overlay entries }

theorem Updated.apply_eq {c d : Criteria} {u : Update} (h : Updated c u d) : c.apply u = .ok d := by
  cases h with
  | sort | scores => rfl
  | queries h | filters h | postFilters h | fields h | types h | options h | requestOptions h
  | facets h | aggregations h | suggest h | scriptFields h =>
    simp only [apply, update, h]
    rfl

theorem checkPurge_eq_ok {s : Storage} {purge : Option Bool} :
    checkPurge s purge = .ok () ↔ s.replaceable = true ∨ purge = none := by
  unfold checkPurge
  cases s.replaceable <;> cases purge <;> simp

theorem updated_of_apply {c d : Criteria} {u : Update} (h : c.apply u = .ok d) : Updated c u d := by
  obtain ⟨s, patch, purge⟩ := u
  obtain ⟨⟨⟩, hpurge, h⟩ := bind_eq_ok.mp h
  rw [checkPurge_eq_ok] at hpurge
  cases s with
  | sort =>
    cases h
    exact .sort
  | fields =>
    obtain ⟨names, hnames, hd⟩ := bind_eq_ok.mp h
    cases hd
    exact .fields hnames
  | types =>
    obtain ⟨names, hnames, hd⟩ := bind_eq_ok.mp h
    cases hd
    exact .types hnames
  | scores =>
    obtain rfl : purge = none := by simpa [Storage.replaceable] using hpurge
    cases h
    exact .scores
  | _ =>
    obtain rfl : purge = none := by simpa [Storage.replaceable] using hpurge
    obtain ⟨_, hpatch, hd⟩ := bind_eq_ok.mp h
    cases hd
    first
      | exact .queries hpatch
      | exact .filters hpatch
      | exact .postFilters hpatch
      | exact .options hpatch
      | exact .requestOptions hpatch
      | exact .facets hpatch
      | exact .aggregations hpatch
      | exact .suggest hpatch
      | exact .scriptFields hpatch

/-- An update that one criteria accepts is accepted by every other. -/
theorem Updated.exists_of {c d : Criteria} {u : Update} (h : Updated c u d) (other : Criteria) :
    ∃ result, Updated other u result := by
  cases h with
  | queries h => exact ⟨_, .queries h⟩
  | filters h => exact ⟨_, .filters h⟩
  | postFilters h => exact ⟨_, .postFilters h⟩
  | sort => exact ⟨_, .sort⟩
  | fields h => exact ⟨_, .fields h⟩
  | types h => exact ⟨_, .types h⟩
  | scores => exact ⟨_, .scores⟩
  | options h => exact ⟨_, .options h⟩
  | requestOptions h => exact ⟨_, .requestOptions h⟩
  | facets h => exact ⟨_, .facets h⟩
  | aggregations h => exact ⟨_, .aggregations h⟩
  | suggest h => exact ⟨_, .suggest h⟩
  | scriptFields h => exact ⟨_, .scriptFields h⟩

/-! ## Runs of updates -/

/-- The criteria that an edit leaves behind, whether it ends well or with a fault. -/
def left : EStateM.Result Fault Criteria Unit → Criteria
  | .ok _ c | .error _ c => c

/-- The criteria after an update in place. -/
def after (c : Criteria) (u : Update) : Criteria := left ((edit u).run c)

/-- The criteria after a run of updates in place, the refused ones skipped. -/
def replay (c : Criteria) (us : List Update) : Criteria := us.foldl after c

@[simp] theorem replay_nil (c : Criteria) : c.replay [] = c := rfl

@[simp] theorem replay_cons (c : Criteria) (u : Update) (us : List Update) :
    c.replay (u :: us) = (c.after u).replay us := rfl

@[simp] theorem replay_append (c : Criteria) (us vs : List Update) :
    c.replay (us ++ vs) = (c.replay us).replay vs := List.foldl_append

theorem Updated.run_edit {c d : Criteria} {u : Update} (h : Updated c u d) :
    (edit u).run c = .ok () d := by
  simp [edit, EStateM.run, h.apply_eq]

theorem Updated.after_eq {c d : Criteria} {u : Update} (h : Updated c u d) : c.after u = d := by
  rw [after, h.run_edit]
  rfl

theorem after_of_refused {c : Criteria} {u : Update} (h : ∀ d, ¬ Updated c u d) :
    c.after u = c := by
  simp only [after, edit, EStateM.run]
  split
  · rename_i d hd
    exact absurd (updated_of_apply hd) (h d)
  · rfl

/-- An update is accepted and made, or refused by this and every other criteria. -/
theorem updated_or_refused (u : Update) :
    (∀ c, ∃ d, Updated c u d) ∨ ∀ c d, ¬ Updated c u d := by
  by_cases h : ∃ c d, Updated c u d
  · obtain ⟨c, d, hd⟩ := h
    exact .inl hd.exists_of
  · exact .inr fun c d hd ↦ h ⟨c, d, hd⟩

end SearchCriteria.Criteria
