import SearchCriteria.Proofs.Criteria.Combining
import SearchCriteria.Request

/-!
# Merging as an algebra

Merging criteria is associative in every storage, the order of the keys included.  A new criteria is
a unit on the left; on the right it resets the join modes to its own, and so it is one exactly where
these are the modes already.
-/

namespace SearchCriteria.Criteria

variable {a b c : Criteria}

/-! ## Associativity and units -/

theorem unionNames_assoc (xs ys zs : List String) :
    unionNames (unionNames xs ys) zs = unionNames xs (unionNames ys zs) :=
  Distinct.union_assoc Association.lawful_beq xs ys zs

theorem combine_assoc (hb : b.Settled) (a c : Criteria) :
    (a.combine b).combine c = a.combine (b.combine c) := by
  simp only [combine, List.append_assoc, unionNames_assoc, Mapping.overlay_assoc hb.options,
    Mapping.overlay_assoc hb.requestOptions, Mapping.overlay_assoc hb.facets,
    Mapping.overlay_assoc hb.aggregations, Mapping.overlay_assoc hb.suggest,
    Mapping.overlay_assoc hb.scriptFields]

theorem SettledNames.nil_union {names : List String} (h : SettledNames names) :
    Criteria.unionNames [] names = names := Distinct.nil_union h.separate

theorem SettledNames.union_nil {names : List String} (h : SettledNames names) :
    Criteria.unionNames names [] = names := Distinct.union_nil h.separate

/-- What is combined into a new criteria hides the modes that it starts from. -/
theorem start_combine (config : Config) (hb : b.Settled) : (start config []).combine b = b := by
  have hoptions : config.defaultOptions.overlay b.options = b.options :=
    Mapping.overlay_eq_right hb.options hb.modes
  simp only [combine, start, Mapping.overlay_nil, List.nil_append, hoptions, hb.fields.nil_union,
    hb.types.nil_union, Mapping.nil_overlay hb.requestOptions, Mapping.nil_overlay hb.facets,
    Mapping.nil_overlay hb.aggregations, Mapping.nil_overlay hb.suggest,
    Mapping.nil_overlay hb.scriptFields]

/-- A new criteria brings its join modes along and nothing else. -/
theorem combine_start (ha : a.Settled) (config : Config) :
    a.combine (start config []) =
      { a with options := a.options.overlay config.defaultOptions } := by
  simp only [combine, start, Mapping.overlay_nil, List.append_nil, ha.fields.union_nil,
    ha.types.union_nil]

/-! ## Equality up to the join modes -/

/-- Every default key is among the options, so overwriting them keeps the keys. -/
theorem Settled.keys_overlay_defaults (ha : a.Settled) (config : Config) :
    Association.keys (a.options.overlay config.defaultOptions) = Association.keys a.options := by
  have hnone : (Association.keys config.defaultOptions).filter
      (fun k ↦ !(Association.keys a.options).any (Value.sameKey · k)) = [] := by
    refine List.filter_eq_nil_iff.mpr fun k hk ↦ ?_
    simpa using ⟨k, ha.modes.subset hk, Value.sameKey_lawful.self k⟩
  exact (Association.keys_overlay config.distinctKeys_defaultOptions a.options).trans
    (by rw [hnone, List.append_nil])

/-- Options with other join modes are equal exactly when the join modes are. -/
theorem Settled.equal_overlay_defaults (ha : a.Settled) (config : Config) :
    Value.equal (.map (a.options.overlay config.defaultOptions)) (.map a.options) = true ↔
      ∀ e ∈ config.defaultOptions, ∃ v, a.options.get? e.1 = some v ∧ v.equal e.2 = true := by
  have hdefaults := config.distinctKeys_defaultOptions
  have hkeys := ha.keys_overlay_defaults config
  rw [Value.equal, Value.agrees_map,
    agreeEntries_iff_of_keys_eq (ha.options.overlay config.defaultOptions) hkeys, hkeys]
  constructor
  · intro h e he
    have hek : e.1 ∈ Association.keys a.options := ha.modes.subset (List.mem_map_of_mem he)
    have hval : config.defaultOptions.get? e.1 = some e.2 := Mapping.get?_of_mem hdefaults he
    obtain ⟨v, hv⟩ := Association.exists_get?_of_mem_keys Value.sameKey_lawful hek
    refine ⟨v, hv, Value.agrees_symm (h e.1 hek e.2 v ?_ hv)⟩
    rw [Mapping.get?_overlay hdefaults, hval]
    rfl
  · intro h k hk v w hv hw
    rw [Mapping.get?_overlay hdefaults] at hv
    cases hd : config.defaultOptions.get? k with
    | none =>
      rw [hd, Option.none_or] at hv
      obtain rfl : v = w := Option.some.inj (hv.symm.trans hw)
      exact v.agrees_self false
    | some d =>
      obtain ⟨e, he, hke, rfl⟩ := Association.exists_mem_of_get? hd
      obtain rfl : e.2 = v := by simpa [hd] using hv
      obtain ⟨x, hx, hxe⟩ := h e he
      have hsame : a.options.get? e.1 = a.options.get? k :=
        Association.get?_congr Value.sameKey_lawful hke a.options
      obtain rfl : x = w := by simpa [hx, hw] using hsame
      exact Value.agrees_symm hxe

theorem equal_self (a : Criteria) : a.equal a = true :=
  List.all_eq_true.mpr fun s _ ↦ (a.content s).agrees_self false

theorem equal_with_options (a : Criteria) (options : Mapping) :
    ({ a with options } : Criteria).equal a = true ↔
      Value.equal (.map options) (.map a.options) = true := by
  constructor
  · intro h
    exact List.all_eq_true.mp h .options (Storage.mem_all _)
  · intro h
    refine List.all_eq_true.mpr fun s _ ↦ ?_
    cases s with
    | options => exact h
    | _ => exact Value.agrees_self false _

/-- A new criteria is a unit on the right up to the join modes. -/
theorem equal_combine_start (ha : a.Settled) (config : Config) :
    (a.combine (start config [])).equal a = true ↔
      ∀ e ∈ config.defaultOptions, ∃ v, a.options.get? e.1 = some v ∧ v.equal e.2 = true := by
  rw [combine_start ha, equal_with_options, ha.equal_overlay_defaults]

/-! ## The laws of merging -/

/--
Merging is never refused and is associative: both sides agree in every storage, the order of the keys
of the map storages included, and compile to one document.  A new criteria is a unit on the left.  On
the right it is one exactly if the options hold the join modes that its config starts from.
-/
theorem merge_laws (ha : Reachable a) (hb : Reachable b) (hc : Reachable c) (config : Config) :
    (∃ ab bc left right, a.merge b = .ok ab ∧ b.merge c = .ok bc ∧ ab.merge c = .ok left ∧
      a.merge bc = .ok right ∧ (∀ s, left.content s = right.content s) ∧
      left.equal right = true ∧ left.compile = right.compile) ∧
    ((start config []).merge b = .ok b ∧ b.equal b = true) ∧
    ∃ merged, a.merge (start config []) = .ok merged ∧
      (merged.equal a = true ↔
        ∀ e ∈ config.defaultOptions, ∃ v, a.options.get? e.1 = some v ∧ v.equal e.2 = true) := by
  have hbc : (b.combine c).Settled := hb.settled.combine hc.settled
  refine ⟨?assoc, ⟨?left, equal_self b⟩, ?right⟩
  case assoc =>
    refine ⟨a.combine b, b.combine c, (a.combine b).combine c, a.combine (b.combine c),
      hb.settled.merge_eq a, hc.settled.merge_eq b, hc.settled.merge_eq _, hbc.merge_eq a, ?_⟩
    rw [combine_assoc hb.settled]
    exact ⟨fun _ ↦ rfl, equal_self _, rfl⟩
  case left => rw [hb.settled.merge_eq, start_combine config hb.settled]
  case right =>
    exact ⟨_, (settled_start config []).merge_eq a, equal_combine_start ha.settled config⟩

/-- The laws hold of criteria that updates of several storages, a refused one among them, lead to. -/
theorem merge_laws_of_runs :
    let posts := (start {} []).replay
      [{ storage := .types, patch := .text "post" }, { storage := .facets, patch := .int 3 }]
    let sorted := (start { queryMode := .text "should" } []).replay
      [{ storage := .sort, patch := .map [Mapping.entry "date" (.text "desc")], purge := some true }]
    let boosted := (start {} []).replay
      [{ storage := .options, patch := .map [Mapping.entry "filter_mode" (.text "or")] }]
    (∃ ab bc left right, posts.merge sorted = .ok ab ∧ sorted.merge boosted = .ok bc ∧
      ab.merge boosted = .ok left ∧ posts.merge bc = .ok right ∧
      (∀ s, left.content s = right.content s) ∧ left.equal right = true ∧
      left.compile = right.compile) ∧
    ((start {} []).merge sorted = .ok sorted ∧ sorted.equal sorted = true) ∧
    ∃ merged, posts.merge (start {} []) = .ok merged ∧
      (merged.equal posts = true ↔ ∀ e ∈ Config.defaultOptions {},
        ∃ v, posts.options.get? e.1 = some v ∧ v.equal e.2 = true) :=
  merge_laws ((reachable_start _).replay _) ((reachable_start _).replay _)
    ((reachable_start _).replay _) {}

end SearchCriteria.Criteria
