import SearchCriteria.Proofs.Criteria.Settled
import SearchCriteria.Proofs.Latest

/-!
# Criteria by their history

What a storage holds can be told from the updates that it accepted, in closed form: lists are the
leaves of all patches, replaceable storages count from the last purge on, names stand once, and
every key of a mapping has the value of the last patch that wrote it.  What was refused, and what
was written to other storages, has left no trace.

An accepted update writes its own storage alone, so a run is thirteen folds side by side; each of
the four kinds of storage has its own lemma on what its fold comes to.
-/

namespace SearchCriteria.Criteria

/-! ## Accepted updates -/

/-- A criteria accepts the update; which criteria it is makes no difference. -/
def Update.accepted (u : Update) : Bool := (({} : Criteria).apply u).isOk

theorem Update.accepted_iff (u : Update) (c : Criteria) :
    u.accepted = true ↔ ∃ d, c.apply u = .ok d := by
  rw [accepted]
  rcases updated_or_refused u with h | h
  · obtain ⟨d, hd⟩ := h c
    obtain ⟨e, he⟩ := h {}
    rw [he.apply_eq]
    exact ⟨fun _ ↦ ⟨d, hd.apply_eq⟩, fun _ ↦ rfl⟩
  · have hnone : ∀ c : Criteria, ¬ ∃ d, c.apply u = .ok d := fun c ⟨d, hd⟩ ↦
      h c d (updated_of_apply hd)
    cases hstart : ({} : Criteria).apply u with
    | ok d => exact absurd ⟨d, hstart⟩ (hnone {})
    | error fault => exact ⟨Bool.noConfusion, fun hc ↦ absurd hc (hnone c)⟩

/-- The accepted updates of one storage, in order. -/
def acceptedOf (s : Storage) (us : List Update) : List Update :=
  us.filter fun u ↦ u.storage = s && u.accepted

/-! ## The closed form -/

namespace History

/-- The updates from the last purging one on, or all if none purges. -/
def sincePurge : List Update → List Update
  | [] => []
  | u :: us => if us.any (·.purge = some true) then sincePurge us else u :: us

/-- The leaves of the patches, in order. -/
def leaves (us : List Update) : List Value := us.flatMap fun u ↦ Patch.leaves u.patch

/-- The clauses that a leaf gives. Null, false, blank text and what is empty give none. -/
def clausesOf : Value → List Value
  | .null | .bool false | .list [] | .tuple [] | .map [] | .set _ [] => []
  | .text s => if Text.isBlank s then [] else [.text s]
  | v => [v]

/-- The sort keys that a leaf gives, one for each entry of a mapping. -/
def sortKeysOf : Value → List Value
  | .map entries => entries.map fun (key, order) ↦ .map [(key, order)]
  | v => [v]

/--
The names that a leaf gives. Null gives none and a truth value its word; anything else gives its
text, unless that is blank.
-/
def namesOf : Value → List String
  | .null => []
  | .bool true => ["true"]
  | .bool false => ["false"]
  | v => v.display.toOption.toList.filter (!Text.isBlank ·)

/-- The names that the leaves of a patch give. -/
def namesIn (patch : Value) : List String := (Patch.leaves patch).flatMap namesOf

/-- The entries of a mapping; null has none. -/
def entriesIn : Value → Mapping
  | .map entries => entries
  | _ => []

/-- What a storage of a new criteria holds after it has accepted the updates. -/
def content (config : Config) (options : Value) (us : List Update) : Storage → Value
  | .queries | .filters | .postFilters | .scores => .list ((leaves us).flatMap clausesOf)
  | .sort => .list ((leaves (sincePurge us)).flatMap sortKeysOf)
  | .fields | .types => .list (((leaves (sincePurge us)).flatMap namesOf).eraseDups.map .text)
  | .options =>
    .map (Mapping.latest
      (config.defaultOptions :: entriesIn options :: us.map fun u ↦ entriesIn u.patch))
  | .requestOptions | .facets | .aggregations | .suggest | .scriptFields =>
    .map (Mapping.latest (us.map fun u ↦ entriesIn u.patch))

theorem clausesOf_eq (v : Value) : clausesOf v = if !v.isBlank then [v] else [] := by
  cases v with
  | bool b => cases b <;> rfl
  | text s =>
    rw [clausesOf, Value.isBlank]
    cases Text.isBlank s <;> rfl
  | list items | tuple items | map items | set _ items => cases items <;> rfl
  | _ => rfl

/-- The leaves that give no clause are the blank ones. -/
theorem flatMap_clausesOf (vs : List Value) : vs.flatMap clausesOf = Patch.compact vs := by
  induction vs with
  | nil => rfl
  | cons v vs ih =>
    rw [List.flatMap_cons, ih, clausesOf_eq, Patch.compact, Patch.compact, List.filter_cons]
    split <;> rfl

theorem namesOf_eq (v : Value) :
    namesOf v = (Patch.nameOf v).toOption.toList.filter (!Text.isBlank ·) := by
  cases v with
  | null => simp [namesOf, Patch.nameOf, Except.toOption]
  | bool b => cases b <;> decide +kernel
  | _ => rfl

end History

open History

/-! ## What an accepted update writes -/

/-- The criteria after an update that is accepted, storage by storage. -/
def Update.write (u : Update) (c : Criteria) : Criteria where
  queries := if u.storage = .queries then c.queries ++ Patch.items u.patch else c.queries
  filters := if u.storage = .filters then c.filters ++ Patch.items u.patch else c.filters
  postFilters :=
    if u.storage = .postFilters then c.postFilters ++ Patch.items u.patch else c.postFilters
  sort := if u.storage = .sort then kept u.purge c.sort ++ Patch.sortSpecs u.patch else c.sort
  fields :=
    if u.storage = .fields then unionNames (kept u.purge c.fields) (namesIn u.patch) else c.fields
  types :=
    if u.storage = .types then unionNames (kept u.purge c.types) (namesIn u.patch) else c.types
  scores := if u.storage = .scores then c.scores ++ Patch.items u.patch else c.scores
  options := if u.storage = .options then c.options.overlay (entriesIn u.patch) else c.options
  requestOptions :=
    if u.storage = .requestOptions then c.requestOptions.overlay (entriesIn u.patch)
    else c.requestOptions
  facets := if u.storage = .facets then c.facets.overlay (entriesIn u.patch) else c.facets
  aggregations :=
    if u.storage = .aggregations then c.aggregations.overlay (entriesIn u.patch)
    else c.aggregations
  suggest := if u.storage = .suggest then c.suggest.overlay (entriesIn u.patch) else c.suggest
  scriptFields :=
    if u.storage = .scriptFields then c.scriptFields.overlay (entriesIn u.patch)
    else c.scriptFields

theorem eq_items_of_clausePatch {s : Storage} {patch : Value} {items : List Value}
    (h : clausePatch s patch = .ok items) : items = Patch.items patch := by
  obtain ⟨⟨⟩, -, h⟩ := bind_eq_ok.mp h
  exact (Except.ok.inj h).symm

theorem eq_entriesIn_of_mapPatch {s : Storage} {patch : Value} {entries : Mapping}
    (h : mapPatch s patch = .ok entries) : entries = entriesIn patch := by
  cases patch with
  | null | map => exact (Except.ok.inj h).symm
  | _ => cases h

theorem eq_namesIn_of_names {patch : Value} {names : List String}
    (h : Patch.names patch = .ok names) : names = namesIn patch := by
  obtain ⟨all, hall, h⟩ := bind_eq_ok.mp h
  obtain rfl := Except.ok.inj h
  rw [namesIn, funext namesOf_eq, ← List.filter_flatMap, ← List.filterMap_eq_flatMap_toList,
    filterMap_toOption_of_mapM hall]

theorem Updated.eq_write {c d : Criteria} {u : Update} (h : Updated c u d) : d = u.write c := by
  cases h with
  | sort | scores => rfl
  | queries h | filters h | postFilters h =>
    obtain rfl := eq_items_of_clausePatch h
    rfl
  | fields h | types h =>
    obtain rfl := eq_namesIn_of_names h
    rfl
  | options h | requestOptions h | facets h | aggregations h | suggest h | scriptFields h =>
    obtain rfl := eq_entriesIn_of_mapPatch h
    rfl

theorem after_eq (c : Criteria) (u : Update) :
    c.after u = if u.accepted then u.write c else c := by
  cases hu : u.accepted with
  | true =>
    obtain ⟨d, hd⟩ := (u.accepted_iff c).mp hu
    have hupdated := updated_of_apply hd
    rw [hupdated.after_eq, hupdated.eq_write]
    rfl
  | false =>
    refine after_of_refused fun d hd ↦ ?_
    rw [(u.accepted_iff c).mpr ⟨d, hd.apply_eq⟩] at hu
    cases hu

/-! ## Runs as folds -/

/-- What one storage holds after a run is a fold over the updates that it accepted. -/
theorem replay_eq_foldl {β : Type} (f : Criteria → β) (g : β → Update → β) (s : Storage)
    (hwrite : ∀ c (u : Update), f (u.write c) = if u.storage = s then g (f c) u else f c)
    (c : Criteria) (us : List Update) : f (c.replay us) = (acceptedOf s us).foldl g (f c) := by
  induction us generalizing c with
  | nil => rfl
  | cons u us ih =>
    rw [replay_cons, ih, after_eq, acceptedOf, acceptedOf, List.filter_cons]
    cases u.accepted with
    | false => simp
    | true =>
      rw [if_pos rfl, hwrite]
      by_cases hs : u.storage = s <;> simp [hs]

/-- Clauses and scoring functions pile up. -/
theorem replay_items (f : Criteria → List Value) (s : Storage)
    (hwrite : ∀ c (u : Update), f (u.write c) =
      if u.storage = s then f c ++ Patch.items u.patch else f c)
    {c : Criteria} (hc : f c = []) (us : List Update) :
    f (c.replay us) = (leaves (acceptedOf s us)).flatMap clausesOf := by
  rw [replay_eq_foldl f (fun held u ↦ held ++ Patch.items u.patch) s hwrite, hc,
    List.foldl_append_eq_append, List.nil_append, flatMap_clausesOf, Patch.compact, leaves,
    List.filter_flatMap]
  rfl

/-- Mappings are laid one over the other, those that are there from the start first. -/
theorem replay_entries (f : Criteria → Mapping) (s : Storage) (first : List Mapping)
    (hwrite : ∀ c (u : Update), f (u.write c) =
      if u.storage = s then Mapping.overlay (f c) (entriesIn u.patch) else f c)
    {c : Criteria} (hc : f c = first.foldl Mapping.overlay [])
    (us : List Update) :
    f (c.replay us) =
      Mapping.latest (first ++ (acceptedOf s us).map fun u ↦ entriesIn u.patch) := by
  rw [replay_eq_foldl f (fun held u ↦ Mapping.overlay held (entriesIn u.patch)) s hwrite, hc,
    ← Mapping.foldl_overlay, List.foldl_append, List.foldl_map]

/-! ## Purges -/

theorem sincePurge_eq_self {us : List Update} (h : us.any (·.purge = some true) = false) :
    sincePurge us = us := by
  cases us with
  | nil => rfl
  | cons u us =>
    rw [List.any_cons, Bool.or_eq_false_iff] at h
    rw [sincePurge, h.2]
    rfl

/-- A fold that forgets what was there at every purge is one from the last purge on. -/
theorem foldl_kept {α : Type} (write : List α → Update → List α) (held : List α)
    (us : List Update) :
    us.foldl (fun held u ↦ write (kept u.purge held) u) held =
      (sincePurge us).foldl write (if us.any (·.purge = some true) then [] else held) := by
  induction us generalizing held with
  | nil => rfl
  | cons u us ih =>
    rw [List.foldl_cons, ih, sincePurge]
    cases hany : us.any (·.purge = some true) with
    | true => simp [hany]
    | false =>
      rw [sincePurge_eq_self hany, if_neg Bool.false_ne_true, if_neg Bool.false_ne_true,
        List.any_cons, hany, Bool.or_false, List.foldl_cons]
      simp only [decide_eq_true_eq]
      rfl

/-- The sort order has the keys that came since the last purge. -/
theorem replay_sort {c : Criteria} (hc : c.sort = []) (us : List Update) :
    (c.replay us).sort =
      (leaves (sincePurge (acceptedOf .sort us))).flatMap sortKeysOf := by
  rw [replay_eq_foldl sort (fun held u ↦ kept u.purge held ++ Patch.sortSpecs u.patch) .sort
    (fun _ _ ↦ rfl), foldl_kept fun held u ↦ held ++ Patch.sortSpecs u.patch, hc, ite_self,
    List.foldl_append_eq_append, List.nil_append, leaves, List.flatMap_assoc]
  rfl

/-- Names stand once, in the order in which they came since the last purge. -/
theorem replay_names (f : Criteria → List String) (s : Storage)
    (hwrite : ∀ c (u : Update), f (u.write c) =
      if u.storage = s then unionNames (kept u.purge (f c)) (namesIn u.patch) else f c)
    {c : Criteria} (hc : f c = []) (us : List Update) :
    f (c.replay us) =
      ((leaves (sincePurge (acceptedOf s us))).flatMap namesOf).eraseDups := by
  rw [leaves, List.flatMap_assoc,
    replay_eq_foldl f (fun held u ↦ unionNames (kept u.purge held) (namesIn u.patch)) s hwrite,
    foldl_kept fun held u ↦ unionNames held (namesIn u.patch), hc, ite_self]
  exact Distinct.foldl_union Association.lawful_beq _ _

/-! ## Storage contents -/

/-- The contents of the storages tell criteria apart. -/
theorem ext_content {a b : Criteria} (h : ∀ s, a.content s = b.content s) : a = b := by
  have hnames : Function.Injective (List.map Value.text) :=
    List.map_injective_iff.mpr fun _ _ ↦ Value.text.inj
  obtain ⟨queries, filters, postFilters, sort, fields, types, scores, options, requestOptions,
    facets, aggregations, suggest, scriptFields⟩ := a
  obtain rfl := Value.list.inj (h .queries)
  obtain rfl := Value.list.inj (h .filters)
  obtain rfl := Value.list.inj (h .postFilters)
  obtain rfl := Value.list.inj (h .sort)
  obtain rfl := hnames (Value.list.inj (h .fields))
  obtain rfl := hnames (Value.list.inj (h .types))
  obtain rfl := Value.list.inj (h .scores)
  obtain rfl := Value.map.inj (h .options)
  obtain rfl := Value.map.inj (h .requestOptions)
  obtain rfl := Value.map.inj (h .facets)
  obtain rfl := Value.map.inj (h .aggregations)
  obtain rfl := Value.map.inj (h .suggest)
  obtain rfl := Value.map.inj (h .scriptFields)
  rfl

/-- The contents after a run, from the updates that each storage accepted. -/
theorem content_replay (config : Config) (seed : Mapping) (us : List Update) (s : Storage) :
    ((start config seed).replay us).content s =
      History.content config (.map seed) (acceptedOf s us) s := by
  cases s with
  | queries => exact congrArg Value.list (replay_items queries _ (fun _ _ ↦ rfl) rfl us)
  | filters => exact congrArg Value.list (replay_items filters _ (fun _ _ ↦ rfl) rfl us)
  | postFilters => exact congrArg Value.list (replay_items postFilters _ (fun _ _ ↦ rfl) rfl us)
  | sort => exact congrArg Value.list (replay_sort rfl us)
  | fields =>
    exact congrArg (Value.list ∘ List.map .text) (replay_names fields _ (fun _ _ ↦ rfl) rfl us)
  | types =>
    exact congrArg (Value.list ∘ List.map .text) (replay_names types _ (fun _ _ ↦ rfl) rfl us)
  | scores => exact congrArg Value.list (replay_items scores _ (fun _ _ ↦ rfl) rfl us)
  | options =>
    have hstart : (start config seed).options =
        [config.defaultOptions, seed].foldl Mapping.overlay [] := by
      rw [options_start, List.foldl_cons, List.foldl_cons, List.foldl_nil,
        Mapping.nil_overlay config.distinctKeys_defaultOptions]
    exact congrArg Value.map (replay_entries options _ _ (fun _ _ ↦ rfl) hstart us)
  | requestOptions =>
    exact congrArg Value.map (replay_entries requestOptions _ [] (fun _ _ ↦ rfl) rfl us)
  | facets => exact congrArg Value.map (replay_entries facets _ [] (fun _ _ ↦ rfl) rfl us)
  | aggregations =>
    exact congrArg Value.map (replay_entries aggregations _ [] (fun _ _ ↦ rfl) rfl us)
  | suggest => exact congrArg Value.map (replay_entries suggest _ [] (fun _ _ ↦ rfl) rfl us)
  | scriptFields =>
    exact congrArg Value.map (replay_entries scriptFields _ [] (fun _ _ ↦ rfl) rfl us)

/--
A run of updates in closed form.  Whether an update is accepted is told from the update alone, and
each storage holds what its accepted updates come to, whatever was refused and whatever was written
elsewhere in between.  So runs in which every storage accepts the same updates in the same order end
alike, however they interleave the storages.
-/
theorem replay_closedForm {config : Config} {options : Value} {c : Criteria}
    (h : create config options = .ok c) (us : List Update) :
    (∀ u, (∃ d, (c.replay us).apply u = .ok d) ↔ u.accepted = true) ∧
    (∀ s, (c.replay us).content s = History.content config options (acceptedOf s us) s) ∧
    ∀ vs, (∀ s, acceptedOf s us = acceptedOf s vs) → c.replay us = c.replay vs := by
  have hcontent : ∀ us s,
      (c.replay us).content s = History.content config options (acceptedOf s us) s := by
    cases options with
    | null | map =>
      obtain rfl := Except.ok.inj h
      exact content_replay config _
    | _ => cases h
  refine ⟨fun u ↦ (u.accepted_iff _).symm, hcontent us, fun vs hvs ↦ ?_⟩
  refine ext_content fun s ↦ ?_
  rw [hcontent us, hcontent vs, hvs s]

/-- A key is written again by an equal one, a purge is refused, and another one is not. -/
theorem replay_closedForm_of_purges :
    let options : Value := .map [(.int 1, .text "one"), Mapping.entry "strategy" (.text "bool")]
    let bad : Update := { storage := .types, patch := .node .base, purge := some true }
    let good : Update :=
      { storage := .types, patch := .list [.int 3, .text " ", .tuple [.bool true]],
        purge := some true }
    let post : Update := { storage := .types, patch := .text "post" }
    let flag : Update := { storage := .options, patch := .map [(.bool true, .text "yes")] }
    ∃ c, create {} options = .ok c ∧
      (c.replay [post, good, flag, post, bad]).content .types =
        .list [.text "3", .text "true", .text "post"] ∧
      (c.replay [post, good, flag, post, bad]).content .options =
        .map [Mapping.entry "query_mode" (.text "must"), Mapping.entry "filter_mode" (.text "and"),
          Mapping.entry "post_filter_mode" (.text "and"), (.int 1, .text "yes"),
          Mapping.entry "strategy" (.text "bool")] ∧
      c.replay [post, good, flag, post, bad] = c.replay [bad, flag, post, good, post] := by
  intro options bad good post flag
  have hcreate : create {} options = .ok (start {} _) := rfl
  obtain ⟨-, hcontent, hreorder⟩ := replay_closedForm hcreate [post, good, flag, post, bad]
  refine ⟨_, hcreate, hcontent .types, hcontent .options, hreorder _ fun s ↦ ?_⟩
  cases s <;> rfl

end SearchCriteria.Criteria
