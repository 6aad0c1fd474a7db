import SearchCriteria.Proofs.Criteria.Replaying
import SearchCriteria.Proofs.Latest
import SearchCriteria.Proofs.Request.Grouping

/-!
# The mode of the post filters

Post filters without a mode of their own follow the filters, and that is settled in two places:
when the options of a criteria are made, and when the criteria is compiled.  `Defers c d` relates a
criteria in which the mode of the filters was copied to one in which it is still to be looked up.
Updates that write neither mode keep the relation, and it is all that compiling looks at.  A mode
that was chosen is another matter: whatever counts as empty or zero, it is not null, and it stays.
-/

namespace SearchCriteria

open Mapping (entry)

/-- What is laid over two mappings makes no difference between them. -/
theorem Mapping.getText?_overlay_congr {m n : Mapping} {name : String}
    (h : m.getText? name = n.getText? name) (additions : Mapping) :
    (m.overlay additions).getText? name = (n.overlay additions).getText? name := by
  rw [← Mapping.get?_text, ← Mapping.get?_text] at h ⊢
  rw [Mapping.get?, Mapping.overlay, Association.get?_overlay_eq_reverse Value.sameKey_lawful,
    Mapping.get?, Mapping.overlay, Association.get?_overlay_eq_reverse Value.sameKey_lawful]
  exact congrArg _ h

/-- Of additions with distinct keys, those that are there win. -/
theorem Mapping.getText?_overlay_of_some {additions : Mapping} (h : additions.DistinctKeys)
    {name : String} {v : Value} (hv : additions.getText? name = some v) (m : Mapping) :
    (m.overlay additions).getText? name = some v := by
  rw [← Mapping.get?_text] at hv ⊢
  rw [Mapping.get?_overlay h, hv]
  rfl

namespace Criteria

variable {c d : Criteria} {u : Update} {v : Value}

/-- Refused or made, the update leaves an option as it is. -/
def Update.Keeps (u : Update) (name : String) : Prop :=
  ∀ entries, optionPatch? u = some entries → entries.getText? name = none

theorem Update.Keeps.option?_after {name : String} (h : u.Keeps name) (c : Criteria) :
    (c.after u).option? name = c.option? name := by
  rw [option?, options_after]
  exact getText?_foldl_overlay (fun entries he ↦ h entries (Option.mem_toList.mp he)) c.options

/-- Two criteria with the same option have the same one after an update. -/
theorem option?_after_congr {name : String} (h : c.option? name = d.option? name) (u : Update) :
    (c.after u).option? name = (d.after u).option? name := by
  rw [option?, option?, options_after, options_after]
  cases optionPatch? u with
  | none => exact h
  | some entries => exact Mapping.getText?_overlay_congr h entries

/-! ## Following the filters -/

/-- Both criteria follow the filters, the first by a copy of their mode, the second by a null. -/
structure Defers (c d : Criteria) : Prop where
  same : d = { c with options := d.options }
  others (name : String) (h : name ≠ "post_filter_mode") : c.option? name = d.option? name
  copied : c.option? "post_filter_mode" = c.option? "filter_mode"
  deferred : d.option? "post_filter_mode" = some .null

theorem defers_start {config : Config} (h : config.postFilterMode = none) :
    Defers (start config []) (start config [entry "post_filter_mode" .null]) where
  same := rfl
  others name hname := by
    have hother : Mapping.getText? [entry "post_filter_mode" .null] name = none := by
      rw [Mapping.getText?_cons_entry, if_neg hname.symm, Mapping.getText?_nil]
    exact (Mapping.getText?_overlay_of_eq_none hother config.defaultOptions).symm
  copied := by
    have hcopied : config.resolvedPostFilterMode = config.filterMode := by
      rw [Config.resolvedPostFilterMode, h, Option.getD_none]
    change config.defaultOptions.getText? _ = config.defaultOptions.getText? _
    simp [Config.defaultOptions, Mapping.getText?_cons_entry, hcopied]
  deferred := Mapping.getText?_overlay_of_some (Mapping.distinctKeys_single _ _)
    (Mapping.getText?_single "post_filter_mode" .null) config.defaultOptions

theorem Defers.after (h : Defers c d) (hfilter : u.Keeps "filter_mode")
    (hpost : u.Keeps "post_filter_mode") : Defers (c.after u) (d.after u) where
  same := by
    obtain ⟨options, hafter⟩ := after_with_options c d.options u
    rw [← h.same] at hafter
    rw [hafter]
  others name hname := option?_after_congr (h.others name hname) u
  copied := by rw [hfilter.option?_after, hpost.option?_after, h.copied]
  deferred := by rw [hpost.option?_after, h.deferred]

theorem Defers.mode_eq (h : Defers c d) {name : String} (hname : name ≠ "post_filter_mode") :
    c.mode name = d.mode name := by rw [mode, mode, h.others name hname]

/-- The mode of the filters is what both criteria come to. -/
theorem Defers.postFilterMode_eq (h : Defers c d) : c.postFilterMode = d.postFilterMode := by
  have hcopied : c.postFilterMode = c.mode "filter_mode" := by
    have hfound := h.copied
    unfold option? at hfound
    rw [postFilterMode, mode, Mapping.present?, option?, hfound]
    cases c.options.getText? "filter_mode" with
    | none => rfl
    | some v => cases v <;> rfl
  have hdeferred : d.postFilterMode = d.mode "filter_mode" := by
    have hfound := h.deferred
    unfold option? at hfound
    rw [postFilterMode, Mapping.present?, hfound]
    rfl
  rw [hcopied, hdeferred, h.mode_eq (by decide)]

/-- Boosting looks at two of the options. -/
theorem boost_congr {m n : Mapping} (hboost : m.truthy? "boost_mode" = n.truthy? "boost_mode")
    (hscore : m.truthy? "score_mode" = n.truthy? "score_mode") (body : Mapping)
    (scores : List Value) : Request.boost body scores m = Request.boost body scores n := by
  simp only [Request.boost, Request.functionScore, hboost, hscore]

/-- Compiling looks at the modes, at what the post filters come to, and at other options. -/
theorem Defers.compile_eq (h : Defers c d) : c.compile = d.compile := by
  -- what is looked up in the options, apart from the modes
  have htruthy {name : String} (hname : name ≠ "post_filter_mode") :
      c.options.truthy? name = d.options.truthy? name :=
    congrArg (Option.filter Value.truthy) (h.others name hname)
  have hquery : c.joinedQuery = d.joinedQuery := by
    rw [joinedQuery, joinedQuery, h.mode_eq (by decide), h.same]
  have hfilter : c.joinedFilter = d.joinedFilter := by
    rw [joinedFilter, joinedFilter, h.mode_eq (by decide), h.same]
    rfl
  have hpost : c.joinedPostFilter = d.joinedPostFilter := by
    rw [joinedPostFilter, joinedPostFilter, h.postFilterMode_eq, h.same]
  have hsimple : Request.isSimple c = Request.isSimple d :=
    congrArg Option.isSome (htruthy (by decide))
  have hattach (p : Option Value) (start : Mapping) :
      Request.attach c p start = Request.attach d p start := by
    rw [h.same]
    rfl
  have hboost (body : Mapping) :
      Request.boost body c.scores c.options = Request.boost body d.scores d.options := by
    rw [boost_congr (htruthy (by decide)) (htruthy (by decide)), h.same]
  have hlast : c.requestOptions = d.requestOptions := by rw [h.same]
  have hbody : Request.body c = Request.body d := by
    simp only [Request.body, hquery, hfilter, h.others "strategy" (by decide), hsimple, hpost,
      hattach, hboost, hlast]
  rw [compile, compile, hbody]

/-! ## A mode of their own -/

/-- A mode was set for the post filters, whichever way, and was not written over since. -/
inductive Chosen (v : Value) : Criteria → Prop
  | config {config : Config} {seed : Mapping} (h : config.postFilterMode = some v)
      (hseed : seed.getText? "post_filter_mode" = none) : Chosen v (start config seed)
  | seed {config : Config} {seed : Mapping} (h : seed.DistinctKeys)
      (hseed : seed.getText? "post_filter_mode" = some v) : Chosen v (start config seed)
  | written {c : Criteria} {entries : Mapping} (h : entries.DistinctKeys)
      (hv : entries.getText? "post_filter_mode" = some v) :
      Chosen v (c.after { storage := .options, patch := .map entries })
  | kept {c : Criteria} {u : Update} (h : Chosen v c) (hu : u.Keeps "post_filter_mode") :
      Chosen v (c.after u)

theorem Chosen.option?_eq (h : Chosen v c) : c.option? "post_filter_mode" = some v := by
  induction h with
  | @config config seed h hseed =>
    refine (Mapping.getText?_overlay_of_eq_none hseed config.defaultOptions).trans ?_
    simp [Config.defaultOptions, Mapping.getText?_cons_entry, Config.resolvedPostFilterMode, h]
  | @seed config _ h hseed => exact Mapping.getText?_overlay_of_some h hseed config.defaultOptions
  | @written c entries h hv =>
    rw [option?, options_after]
    exact Mapping.getText?_overlay_of_some h hv c.options
  | @kept c u _ hu ih => rw [hu.option?_after, ih]

/-- The post filters are joined under the mode that was chosen for them, whatever the filters do. -/
theorem Chosen.joinedPostFilter_eq (h : Chosen v c) (hv : v ≠ .null) :
    c.joinedPostFilter = clauseFragments c.postFilters >>= Join.join .filters v := by
  have hfound : c.options.getText? "post_filter_mode" = some v := h.option?_eq
  have hmode : c.postFilterMode = v := by
    rw [postFilterMode, Request.present?_eq_getText? (by rw [hfound]; exact mt Option.some.inj hv),
      hfound]
    rfl
  rw [joinedPostFilter, hmode]

/-- So are those of a document, unless it is simple or request options write over their place. -/
theorem Chosen.getText?_document (h : Chosen v c) (hv : v ≠ .null)
    (hsimple : Request.isSimple c = false)
    (hoptions : c.requestOptions.getText? "post_filter" = none) {body : Mapping}
    (hdoc : c.compile = .ok (Request.document body)) :
    ∃ fragments, clauseFragments c.postFilters = .ok fragments ∧
      Join.join .filters v fragments = .ok (body.getText? "post_filter") := by
  obtain ⟨p, hp, hsections⟩ := getText?_section_of_compile hdoc hsimple
  rw [h.joinedPostFilter_eq hv] at hp
  obtain ⟨fragments, hfragments, hjoin⟩ := bind_eq_ok.mp hp
  refine ⟨fragments, hfragments, ?_⟩
  rw [hjoin, hsections "post_filter" p List.mem_cons_self hoptions]

end Criteria

end SearchCriteria
