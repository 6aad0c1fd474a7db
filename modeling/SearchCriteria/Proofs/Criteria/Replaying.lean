import SearchCriteria.Proofs.Criteria.Merging

/-!
# Merging replays

Merging with a criteria that a run of updates leads to replays that run, if the run purges nothing.
Only the join modes tell the two apart: the merged criteria starts from its own, and brings them
along.
-/

namespace SearchCriteria.Criteria

/-! ## What a run does to the options -/

/-- The entries that an accepted update overlays on the options. -/
def optionPatch? : Update → Option Mapping
  | { storage := .options, patch := .map entries, purge := none } => some entries
  | _ => none

/-- The entries that a run overlays on the options, update by update. -/
def optionPatches (us : List Update) : List Mapping := us.filterMap optionPatch?

theorem Updated.options_eq {c d : Criteria} {u : Update} (h : Updated c u d) :
    d.options = (optionPatch? u).toList.foldl Mapping.overlay c.options := by
  cases h with
  | @options patch entries h =>
    cases patch with
    | null =>
      obtain rfl := Except.ok.inj h
      rfl
    | map =>
      obtain rfl := Except.ok.inj h
      rfl
    | _ => cases h
  | _ => rfl

/-- A refused update has no entries for the options. -/
theorem optionPatch?_of_refused {u : Update} (h : ∀ c d, ¬ Updated c u d) :
    optionPatch? u = none := by
  unfold optionPatch?
  split
  · exact absurd (Updated.options rfl) (h {} _)
  · rfl

theorem options_after (c : Criteria) (u : Update) :
    (c.after u).options = (optionPatch? u).toList.foldl Mapping.overlay c.options := by
  rcases updated_or_refused u with h | h
  · obtain ⟨d, hd⟩ := h c
    rw [hd.after_eq, hd.options_eq]
  · rw [after_of_refused (h c), optionPatch?_of_refused h]
    rfl

theorem options_replay (c : Criteria) (us : List Update) :
    (c.replay us).options = (optionPatches us).foldl Mapping.overlay c.options := by
  induction us generalizing c with
  | nil => rfl
  | cons u us ih =>
    rw [replay_cons, ih, options_after, optionPatches, optionPatches, List.filterMap_cons]
    cases optionPatch? u <;> rfl

/-- Options that no patch writes stay as they are. -/
theorem getText?_foldl_overlay {patches : List Mapping} {name : String}
    (h : ∀ entries ∈ patches, entries.getText? name = none) (options : Mapping) :
    (patches.foldl Mapping.overlay options).getText? name = options.getText? name := by
  induction patches generalizing options with
  | nil => rfl
  | cons entries patches ih =>
    obtain ⟨hentries, hpatches⟩ := List.forall_mem_cons.mp h
    rw [List.foldl_cons, ih hpatches, Mapping.getText?_overlay_of_eq_none hentries]

/-! ## The other storages do not see the options -/

/-- With other options an update does the same to the other storages. -/
theorem Updated.with_options {c d : Criteria} {u : Update} (h : Updated c u d)
    (options : Mapping) :
    ∃ others, Updated { c with options } u { d with options := others } := by
  cases h with
  | queries h => exact ⟨options, .queries h⟩
  | filters h => exact ⟨options, .filters h⟩
  | postFilters h => exact ⟨options, .postFilters h⟩
  | sort => exact ⟨options, .sort⟩
  | fields h => exact ⟨options, .fields h⟩
  | types h => exact ⟨options, .types h⟩
  | scores => exact ⟨options, .scores⟩
  | @options _ entries h => exact ⟨options.overlay entries, .options h⟩
  | requestOptions h => exact ⟨options, .requestOptions h⟩
  | facets h => exact ⟨options, .facets h⟩
  | aggregations h => exact ⟨options, .aggregations h⟩
  | suggest h => exact ⟨options, .suggest h⟩
  | scriptFields h => exact ⟨options, .scriptFields h⟩

theorem after_with_options (c : Criteria) (options : Mapping) (u : Update) :
    ∃ others, ({ c with options } : Criteria).after u = { c.after u with options := others } := by
  rcases updated_or_refused u with h | h
  · obtain ⟨d, hd⟩ := h c
    obtain ⟨others, hothers⟩ := hd.with_options options
    exact ⟨others, by rw [hothers.after_eq, hd.after_eq]⟩
  · exact ⟨options, by rw [after_of_refused (h _), after_of_refused (h _)]⟩

theorem replay_with_options (c : Criteria) (options : Mapping) (us : List Update) :
    ∃ others, ({ c with options } : Criteria).replay us = { c.replay us with options := others } := by
  induction us generalizing c options with
  | nil => exact ⟨options, rfl⟩
  | cons u us ih =>
    obtain ⟨others, hothers⟩ := after_with_options c options u
    rw [replay_cons, replay_cons, hothers]
    exact ih (c.after u) others

theorem content_with_options (c : Criteria) (options : Mapping) {s : Storage} (h : s ≠ .options) :
    ({ c with options } : Criteria).content s = c.content s := by
  cases s with
  | options => exact absurd rfl h
  | _ => rfl

/-! ## Combining with an updated criteria -/

theorem kept_of_ne {α : Type} {purge : Option Bool} (h : purge ≠ some true) (items : List α) :
    kept purge items = items := if_neg h

/-- An update that purges nothing can be made after combining as well as before. -/
theorem Updated.combine {b d : Criteria} {u : Update} (h : Updated b u d) (hb : b.Settled)
    (hpurge : u.purge ≠ some true) (a : Criteria) : Updated (a.combine b) u (a.combine d) := by
  cases h with
  | @queries _ items h =>
    change Updated _ _ { a.combine b with queries := a.queries ++ (b.queries ++ items) }
    rw [← List.append_assoc]
    exact .queries h
  | @filters _ items h =>
    change Updated _ _ { a.combine b with filters := a.filters ++ (b.filters ++ items) }
    rw [← List.append_assoc]
    exact .filters h
  | @postFilters _ items h =>
    change Updated _ _ { a.combine b with postFilters := a.postFilters ++ (b.postFilters ++ items) }
    rw [← List.append_assoc]
    exact .postFilters h
  | @sort patch purge =>
    change Updated _ _ { a.combine b with
      sort := a.sort ++ (kept purge b.sort ++ Patch.sortSpecs patch) }
    rw [kept_of_ne hpurge, ← List.append_assoc, ← kept_of_ne hpurge (a.sort ++ b.sort)]
    exact .sort
  | @fields _ purge names h =>
    change Updated _ _ { a.combine b with
      fields := unionNames a.fields (unionNames (kept purge b.fields) names) }
    rw [kept_of_ne hpurge, ← unionNames_assoc, ← kept_of_ne hpurge (unionNames a.fields b.fields)]
    exact .fields h
  | @types _ purge names h =>
    change Updated _ _ { a.combine b with
      types := unionNames a.types (unionNames (kept purge b.types) names) }
    rw [kept_of_ne hpurge, ← unionNames_assoc, ← kept_of_ne hpurge (unionNames a.types b.types)]
    exact .types h
  | @scores patch =>
    change Updated _ _ { a.combine b with
      scores := a.scores ++ (b.scores ++ Patch.items patch) }
    rw [← List.append_assoc]
    exact .scores
  | @options _ entries h =>
    change Updated _ _ { a.combine b with
      options := a.options.overlay (b.options.overlay entries) }
    rw [Mapping.overlay_assoc hb.options]
    exact .options h
  | @requestOptions _ entries h =>
    change Updated _ _ { a.combine b with
      requestOptions := a.requestOptions.overlay (b.requestOptions.overlay entries) }
    rw [Mapping.overlay_assoc hb.requestOptions]
    exact .requestOptions h
  | @facets _ entries h =>
    change Updated _ _ { a.combine b with facets := a.facets.overlay (b.facets.overlay entries) }
    rw [Mapping.overlay_assoc hb.facets]
    exact .facets h
  | @aggregations _ entries h =>
    change Updated _ _ { a.combine b with
      aggregations := a.aggregations.overlay (b.aggregations.overlay entries) }
    rw [Mapping.overlay_assoc hb.aggregations]
    exact .aggregations h
  | @suggest _ entries h =>
    change Updated _ _ { a.combine b with
      suggest := a.suggest.overlay (b.suggest.overlay entries) }
    rw [Mapping.overlay_assoc hb.suggest]
    exact .suggest h
  | @scriptFields _ entries h =>
    change Updated _ _ { a.combine b with
      scriptFields := a.scriptFields.overlay (b.scriptFields.overlay entries) }
    rw [Mapping.overlay_assoc hb.scriptFields]
    exact .scriptFields h

theorem combine_after {b : Criteria} (hb : b.Settled) {u : Update} (hpurge : u.purge ≠ some true)
    (a : Criteria) : a.combine (b.after u) = (a.combine b).after u := by
  rcases updated_or_refused u with h | h
  · obtain ⟨d, hd⟩ := h b
    rw [hd.after_eq, (hd.combine hb hpurge a).after_eq]
  · rw [after_of_refused (h _), after_of_refused (h _)]

theorem combine_replay {b : Criteria} (hb : b.Settled) {us : List Update}
    (hpurge : ∀ u ∈ us, u.purge ≠ some true) (a : Criteria) :
    a.combine (b.replay us) = (a.combine b).replay us := by
  induction us generalizing b with
  | nil => rfl
  | cons u us ih =>
    obtain ⟨hu, hus⟩ := List.forall_mem_cons.mp hpurge
    rw [replay_cons, replay_cons, ih (hb.after u) hus, combine_after hb hu]

/-! ## Merging with a replay -/

/-- As long as no update writes a join mode, these are what the config sets. -/
theorem overlay_defaults_eq_self (config : Config) {us : List Update}
    (h : ∀ entries ∈ optionPatches us, ∀ name ∈ Config.modeNames, entries.getText? name = none) :
    ((start config []).replay us).options.overlay config.defaultOptions =
      ((start config []).replay us).options := by
  refine Association.overlay_eq_self fun e he ↦ ?_
  obtain ⟨name, hname, hkey⟩ : ∃ name ∈ Config.modeNames, Value.text name = e.1 := by
    have hmem : e.1 ∈ Association.keys config.defaultOptions := List.mem_map_of_mem he
    rw [config.keys_defaultOptions] at hmem
    exact List.mem_map.mp hmem
  have hstart : config.defaultOptions.get? e.1 = some e.2 :=
    Mapping.get?_of_mem config.distinctKeys_defaultOptions he
  change Mapping.get? _ e.1 = _
  rw [← hkey, Mapping.get?_text] at hstart ⊢
  rw [options_replay, getText?_foldl_overlay fun entries hentries ↦ h entries hentries name hname]
  exact hstart

/--
Merging with what a run of updates leads to is replaying that run, whatever was refused in it, in
every storage but the options.  Over these the merge lays the modes of the config first, and then the
patches of the run; so nothing is different if no earlier update has written a mode.
-/
theorem merge_replay (config : Config) (us vs : List Update)
    (hpurge : ∀ u ∈ vs, u.purge ≠ some true) :
    ∃ merged, ((start config []).replay us).merge ((start config []).replay vs) = .ok merged ∧
      (∀ s, s ≠ .options →
        merged.content s = ((start config []).replay (us ++ vs)).content s) ∧
      merged.options = (optionPatches vs).foldl Mapping.overlay
        (((start config []).replay us).options.overlay config.defaultOptions) ∧
      ((∀ entries ∈ optionPatches us, ∀ name ∈ Config.modeNames,
          entries.getText? name = none) →
        (∀ s, merged.content s = ((start config []).replay (us ++ vs)).content s) ∧
        merged.equal ((start config []).replay (us ++ vs)) = true ∧
        merged.compile = ((start config []).replay (us ++ vs)).compile) := by
  have hstart := settled_start config []
  have hus : ((start config []).replay us).Settled := hstart.replay us
  have hmerged : ((start config []).replay us).combine ((start config []).replay vs) =
      ({ (start config []).replay us with
        options := ((start config []).replay us).options.overlay config.defaultOptions } :
          Criteria).replay vs := by
    rw [combine_replay hstart hpurge, combine_start hus]
  refine ⟨_, (hstart.replay vs).merge_eq _, fun s hs ↦ ?_, ?_, fun hmodes ↦ ?_⟩
  · obtain ⟨others, hothers⟩ := replay_with_options ((start config []).replay us)
      (((start config []).replay us).options.overlay config.defaultOptions) vs
    rw [hmerged, hothers, content_with_options _ _ hs, replay_append]
  · rw [hmerged, options_replay]
  · rw [hmerged, overlay_defaults_eq_self config hmodes, replay_append]
    exact ⟨fun _ ↦ rfl, equal_self _, rfl⟩

/-- The first run purges and is partly refused, and only the second one writes a mode. -/
theorem merge_replay_of_modes :
    let first : List Update :=
      [{ storage := .types, patch := .list [.text "post", .text " ", .text "page"] },
       { storage := .types, patch := .text "post", purge := some true },
       { storage := .queries, patch := .list [.map [Mapping.entry "a" (.int 1)], .int 7] }]
    let second : List Update :=
      [{ storage := .options, patch := .map [Mapping.entry "query_mode" (.text "should")] },
       { storage := .types, patch := .tuple [.text "page", .text "post"] }]
    let replayed := (start {} []).replay (first ++ second)
    (∀ u ∈ second, u.purge ≠ some true) ∧
    ∃ merged, ((start {} []).replay first).merge ((start {} []).replay second) = .ok merged ∧
      (∀ s, merged.content s = replayed.content s) ∧ merged.equal replayed = true ∧
      merged.compile = replayed.compile := by
  intro first second replayed
  have hpurge : ∀ u ∈ second, u.purge ≠ some true := by decide
  obtain ⟨merged, hmerge, -, -, hequal⟩ := merge_replay {} first second hpurge
  have hmodes : optionPatches first = [] := rfl
  refine ⟨hpurge, merged, hmerge, hequal fun entries hentries ↦ ?_⟩
  rw [hmodes] at hentries
  exact absurd hentries List.not_mem_nil

end SearchCriteria.Criteria
