import SearchCriteria.Proofs.Request.Grouping
import SearchCriteria.Proofs.Search.Standing
import SearchCriteria.Proofs.Session.Derivation

/-!
# Blanks

Clauses, scoring functions and names are looked at when they are added, and those that are blank
stay out, so none of their storages ever holds a blank.  Sort keys are only split: a mapping without
keys disappears, and any other blank leaf is kept.  So a blank sort key comes from a leaf that an
operation gave, and a patch in brackets differs from the patch itself if that is null.
-/

namespace SearchCriteria

open Mapping (entry)

/-! ## Blank sort keys -/

namespace Patch

variable {p v : Value}

/-- A blank sort key is a leaf as it came. -/
theorem mem_leaves_of_blank (hv : v ∈ sortSpecs p) (hblank : v.isBlank = true) : v ∈ leaves p := by
  obtain ⟨w, hw, hkey⟩ := List.mem_flatMap.mp hv
  cases w with
  | map entries =>
    obtain ⟨e, -, rfl⟩ := List.mem_map.mp hkey
    cases hblank
  | _ =>
    obtain rfl := List.mem_singleton.mp hkey
    exact hw

/-- No blank is added exactly if the leaves hold no other blanks than mappings without keys. -/
theorem sortSpecs_not_blank_iff : (∀ v ∈ sortSpecs p, v.isBlank = false) ↔
    ∀ v ∈ leaves p, v.isBlank = true → v = .map [] := by
  constructor
  · intro h v hv hblank
    cases v with
    | map entries => rw [List.isEmpty_iff.mp hblank]
    | _ =>
      have hkept := h _ (List.mem_flatMap.mpr ⟨_, hv, List.mem_singleton_self _⟩)
      exact Bool.noConfusion (hblank.symm.trans hkept)
  · intro h v hv
    refine Bool.eq_false_iff.mpr fun hblank ↦ ?_
    obtain rfl := h v (mem_leaves_of_blank hv hblank) hblank
    exact absurd (isSortKey_of_mem_sortSpecs hv) nofun

/-- Brackets around a patch make no difference, unless it is null. -/
theorem leaves_bracketed (h : p ≠ .null) : leaves (.list [p]) = leaves p := by
  cases p with
  | null => exact absurd rfl h
  | list | tuple => exact List.append_nil _
  | _ => rfl

end Patch

namespace Criteria

variable {c d : Criteria} {u : Update} {p v : Value}

theorem apply_sort (c : Criteria) (p : Value) (purge : Option Bool) :
    c.apply { storage := .sort, patch := p, purge } =
      .ok { c with sort := kept purge c.sort ++ Patch.sortSpecs p } := rfl

/-- A blank among the sort keys was there or is a leaf of a patch for them. -/
theorem Updated.blank_of_sort (h : Updated c u d) (hv : v ∈ d.sort) (hblank : v.isBlank = true) :
    v ∈ c.sort ∨ u.storage = .sort ∧ v ∈ Patch.leaves u.patch := by
  cases h with
  | sort =>
    rcases List.mem_append.mp hv with hv | hv
    · exact .inl (mem_of_mem_kept hv)
    · exact .inr ⟨rfl, Patch.mem_leaves_of_blank hv hblank⟩
  | _ => exact .inl hv

end Criteria

/-- What is sorted by is given to two methods. -/
theorem Call.Stands.eq_of_sort {method : String} {args : List Value} {named : Mapping}
    {u : Criteria.Update} (h : Stands method args named u) (hu : u.storage = .sort) :
    method ∈ ["order", "reorder"] ∧ u.patch = .list args := by
  cases h with
  | appends h | replaces h =>
    dsimp only at hu
    obtain rfl : method = _ := by simpa [hu] using h
    exact ⟨by decide, rfl⟩
  | extra h =>
    dsimp only at hu
    simp [hu] at h
  | _ => cases hu

/-! ## Documents -/

namespace Request

/-- What a document shows of the lists of a criteria, where no request option is in their place. -/
structure Lists (c : Criteria) (body : Mapping) : Prop where
  simple (h : isSimple c = true) : body.getText? "sort" = none ∧ body.getText? "_source" = none
  sort (h : isSimple c = false) (hoptions : c.requestOptions.getText? "sort" = none) :
    body.getText? "sort" = if c.sort.isEmpty then none else some (.list c.sort)
  source (h : isSimple c = false) (hoptions : c.requestOptions.getText? "_source" = none) :
    body.getText? "_source" =
      if c.fields.isEmpty then none else some (.list (c.fields.map .text))
  functions (h : isSimple c = false) (hscores : c.scores ≠ [])
    (hoptions : c.requestOptions.getText? "query" = none) :
    ∃ parts : Mapping, body.getText? "query" = some (.map [entry "function_score" (.map parts)]) ∧
      parts.getText? "functions" = some (.list c.scores)

theorem lists_of_compile {c : Criteria} {body : Mapping} (h : c.compile = .ok (document body)) :
    Lists c body where
  simple hsimple :=
    ⟨Criteria.getText?_of_compile_of_simple h hsimple (by decide) (by decide),
      Criteria.getText?_of_compile_of_simple h hsimple (by decide) (by decide)⟩
  sort hsimple hoptions := by
    obtain ⟨p, -, hsections⟩ := Criteria.getText?_section_of_compile h hsimple
    exact hsections "sort" _ (by simp [sections]) hoptions
  source hsimple hoptions := by
    obtain ⟨p, -, hsections⟩ := Criteria.getText?_section_of_compile h hsimple
    exact hsections "_source" _ (by simp [sections]) hoptions
  functions hsimple hscores hoptions :=
    Criteria.getText?_query_of_compile h hsimple hscores hoptions

end Request

namespace Session

/-! ## Sessions -/

/-- The operation gives the value as a leaf of what to sort by. -/
def Operation.Orders (v : Value) : Operation → Prop
  | .update _ u => u.storage = .sort ∧ v ∈ Patch.leaves u.patch
  | .call _ method args _ => method ∈ ["order", "reorder"] ∧ v ∈ leavesOf args
  | _ => False

/-- A blank among the sort keys was given to one of the operations. -/
theorem exists_orders_of_blank {operations : List Operation} {c : Criteria}
    (hc : c ∈ run operations) {v : Value} (hv : v ∈ c.sort) (hblank : v.isBlank = true) :
    ∃ operation ∈ operations, operation.Orders v := by
  revert v
  refine forall_mem_run (P := fun c ↦ ∀ {v : Value}, v ∈ c.sort → v.isBlank = true →
    ∃ operation ∈ operations, operation.Orders v) ?_ c hc
  intro operation hop h _ hblanks d hd v hv hblank
  cases hd with
  | kept hd => exact hblanks d hd hv hblank
  | created hcreate =>
    obtain ⟨seed, rfl⟩ := Criteria.exists_start_of_create hcreate
    exact absurd hv List.not_mem_nil
  | started => exact absurd hv List.not_mem_nil
  | updated hc hd =>
    rcases hd.blank_of_sort hv hblank with hv | horders
    · exact hblanks _ hc hv hblank
    · exact ⟨_, hop, horders⟩
  | called hmake hcall hu hc hd =>
    rcases hd.blank_of_sort hv hblank with hv | ⟨hstorage, hleaf⟩
    · exact hblanks _ hc hv hblank
    · obtain ⟨hmethod, hpatch⟩ :=
        (Call.stands_of_read (Call.read_of_ok hmake hcall hu)).eq_of_sort hstorage
      rw [hpatch] at hleaf
      exact ⟨_, hop, hmethod, hleaf⟩
  | combined hc ho =>
    rcases List.mem_append.mp hv with hv | hv
    · exact hblanks _ hc hv hblank
    · exact hblanks _ ho hv hblank

/--
Clauses, scoring functions and names are never blank, whatever is done in a session.  A blank among
the sort keys is no mapping, list or tuple, and it was given as a leaf to an operation that sorts.
Documents show the lists as they are.  A patch for the sort keys adds a blank exactly if it has a
blank leaf that is no mapping; it does the same in brackets unless it is null, which adds nothing by
itself and a null in brackets.
-/
theorem blanks_in_lists (operations : List Operation) :
    (∀ c ∈ run operations,
      (∀ v ∈ c.queries ++ c.filters ++ c.postFilters ++ c.scores, v.isBlank = false) ∧
      (∀ name ∈ c.fields ++ c.types, Text.isBlank name = false) ∧
      (∀ v ∈ c.sort, v.isBlank = true →
        v.IsSortKey ∧ ∃ operation ∈ operations, operation.Orders v) ∧
      ∀ body, c.compile = .ok (Request.document body) → Request.Lists c body) ∧
    (∀ p : Value, (∀ v ∈ Patch.sortSpecs p, v.isBlank = false) ↔
      ∀ v ∈ Patch.leaves p, v.isBlank = true → v = .map []) ∧
    ∀ (c : Criteria) (purge : Option Bool),
      (∀ p : Value, p ≠ .null → c.apply { storage := .sort, patch := .list [p], purge } =
        c.apply { storage := .sort, patch := p, purge }) ∧
      c.apply { storage := .sort, patch := .null, purge } =
        .ok { c with sort := Criteria.kept purge c.sort } ∧
      c.apply { storage := .sort, patch := .list [.null], purge } =
        .ok { c with sort := Criteria.kept purge c.sort ++ [.null] } := by
  refine ⟨fun c hc ↦ ?_, fun p ↦ Patch.sortSpecs_not_blank_iff, fun c purge ↦ ?_⟩
  · have hsettled := settled_run operations c hc
    refine ⟨?_, ?_, fun v hv hblank ↦ ⟨hsettled.sort v hv, exists_orders_of_blank hc hv hblank⟩,
      fun body ↦ Request.lists_of_compile⟩
    · simp only [List.forall_mem_append]
      exact ⟨⟨⟨fun v hv ↦ (hsettled.queries v hv).not_blank,
        fun v hv ↦ (hsettled.filters v hv).not_blank⟩,
        fun v hv ↦ (hsettled.postFilters v hv).not_blank⟩, hsettled.scores_not_blank⟩
    · exact List.forall_mem_append.mpr ⟨hsettled.fields.not_blank, hsettled.types.not_blank⟩
  · have hnothing : Patch.sortSpecs .null = [] := rfl
    refine ⟨fun p hp ↦ ?_, ?_, rfl⟩
    · rw [Criteria.apply_sort, Criteria.apply_sort, Patch.sortSpecs, Patch.leaves_bracketed hp,
        Patch.sortSpecs]
    · rw [Criteria.apply_sort, hnothing, List.append_nil]

/-- Blanks in patches of all kinds: of them all, a blank text to sort by is left. -/
theorem blanks_in_lists_of_session :
    let weight : Value := .map [entry "weight" (.int 0)]
    let pair : Value := .map [entry "a" (.int 1), entry "b" (.int 2)]
    let sort : List Value := [.map [entry "a" (.int 1)], .map [entry "b" (.int 2)], .text " "]
    let operations : List Operation := [.criteria {} .null,
      .update 0 { storage := .fields, patch := .list [.text " ", .text "name", .null] },
      .update 0 { storage := .queries, patch := .list [.null, .map [], .node (.present "b")] },
      .update 0 { storage := .scores, patch := .list [.text "", .tuple [weight]] },
      .update 0 { storage := .sort, patch := .list [pair, .map [], .list [], .text " "] }]
    ∃ c body, c ∈ run operations ∧ c.compile = .ok (Request.document body) ∧
      c.queries = [.node (.present "b")] ∧ c.fields = ["name"] ∧ c.scores = [weight] ∧
      body.getText? "sort" = some (.list sort) ∧ Value.isBlank (.text " ") = true ∧
      (∃ operation ∈ operations, operation.Orders (.text " ")) ∧
      c.apply { storage := .sort, patch := .list [.list [pair]], purge := some true } =
        c.apply { storage := .sort, patch := .list [pair], purge := some true } := by
  intro weight pair sort operations
  obtain ⟨hlists, -, hbrackets⟩ := blanks_in_lists operations
  have hplace : (run operations)[0]? = some { Criteria.start {} [] with
      queries := [.node (.present "b")], fields := ["name"], scores := [weight], sort } := rfl
  have hc := List.mem_of_getElem? hplace
  obtain ⟨-, -, hblank, hdocument⟩ := hlists _ hc
  refine ⟨_, _, hc, rfl, rfl, rfl, rfl, (hdocument _ rfl).sort rfl rfl, rfl, ?_, ?_⟩
  · exact (hblank (.text " ") (by simp [sort]) rfl).2
  · exact (hbrackets _ (some true)).1 (.list [pair]) nofun

/-- A null in brackets is kept as a sort key and shows in the document; by itself it is no patch. -/
theorem null_among_sort_keys :
    let c := Criteria.start {} []
    let sorted := { c with sort := [.null] }
    (run [.search {}, .call 0 "order" [.null] []])[1]? = some sorted ∧
      Value.null.isBlank = true ∧
      sorted.compile = .ok (Request.document [entry "sort" (.list [.null])]) ∧
      c.apply { storage := .sort, patch := .null } = .ok c ∧
      c.apply { storage := .sort, patch := .list [.null] } = .ok sorted ∧ c ≠ sorted := by
  intro c sorted
  have hne : c ≠ sorted := fun heq ↦ List.cons_ne_nil _ _ (congrArg Criteria.sort heq).symm
  exact ⟨rfl, rfl, rfl, rfl, rfl, hne⟩

end Session

end SearchCriteria
