import SearchCriteria.Proofs.Criteria.History
import SearchCriteria.Proofs.Request.Vacancy
import SearchCriteria.Proofs.Search.Calling
import SearchCriteria.Proofs.Session.Derivation

/-!
# Sessions without hollow clauses

An empty raw node is dropped wherever clauses are joined, but not under a negation or a marker, and
not as the filter of a scoring function.  Where no operation of a session puts one there, and none
is given a fragment with a hollow clause in it, none gets into a request either.
-/

namespace SearchCriteria

open Mapping (entry single)
open Fragment (full_single full_cons_entry fullAt_clause fullAt_other)

/-! ## Updates and calls -/

/-- The filter of a scoring function is full: a node that comes down to something, or a mapping. -/
def Value.firmScope : Value → Bool
  | .node e => e.rawFull && e.firm && !e.vacant
  | .map entries => (Value.map entries).full
  | _ => true

namespace Criteria

/-- The update brings no hollow clause. -/
def Update.firm (u : Update) : Bool :=
  match u.storage with
  | .queries | .filters | .postFilters => (Patch.items u.patch).all Value.firmClause
  | .scores => (Patch.items u.patch).all Value.full
  | .requestOptions => fullEntries (History.entriesIn u.patch)
  | .sort | .fields | .types | .options | .facets | .aggregations | .suggest | .scriptFields => true

variable {c d o : Criteria} {u : Update}

theorem firm_start (config : Config) (seed : Mapping) : (start config seed).Firm where
  queries _ hv := absurd hv List.not_mem_nil
  filters _ hv := absurd hv List.not_mem_nil
  postFilters _ hv := absurd hv List.not_mem_nil
  scores _ hv := absurd hv List.not_mem_nil
  requestOptions := rfl

theorem Firm.updated (hc : c.Firm) (hu : u.firm = true) (h : Updated c u d) : d.Firm := by
  cases h with
  | queries hitems =>
    obtain rfl := eq_items_of_clausePatch hitems
    exact { hc with queries := forall_mem_append hc.queries (List.all_eq_true.mp hu) }
  | filters hitems =>
    obtain rfl := eq_items_of_clausePatch hitems
    exact { hc with filters := forall_mem_append hc.filters (List.all_eq_true.mp hu) }
  | postFilters hitems =>
    obtain rfl := eq_items_of_clausePatch hitems
    exact { hc with postFilters := forall_mem_append hc.postFilters (List.all_eq_true.mp hu) }
  | scores => exact { hc with scores := forall_mem_append hc.scores (List.all_eq_true.mp hu) }
  | requestOptions hentries =>
    obtain rfl := eq_entriesIn_of_mapPatch hentries
    exact { hc with requestOptions := Request.fullEntries_overlay hc.requestOptions hu }
  | _ => exact { hc with }

theorem Firm.combine (hc : c.Firm) (ho : o.Firm) : (c.combine o).Firm where
  queries := forall_mem_append hc.queries ho.queries
  filters := forall_mem_append hc.filters ho.filters
  postFilters := forall_mem_append hc.postFilters ho.postFilters
  scores := forall_mem_append hc.scores ho.scores
  requestOptions := Request.fullEntries_overlay hc.requestOptions ho.requestOptions

end Criteria

namespace Call

/-- The call brings no hollow clause. -/
def firm : Call → Bool
  | .query clauses | .filter clauses | .postFilter clauses =>
    (Patch.items (.list clauses)).all Value.firmClause
  | .request options => fullEntries options
  | .boostFactor _ scope | .weight _ scope | .randomScore _ scope | .scriptScore _ _ scope
  | .fieldValueFactor _ scope | .decay _ _ _ _ _ _ scope => scope.firmScope
  | _ => true

theorem full_of_clauseFragment {scope : Value} {f : Mapping} (hscope : scope.firmScope = true)
    (h : scope.clauseFragment = .ok f) : (Value.map f).full = true := by
  cases scope with
  | node e =>
    obtain ⟨hfirm, hvacant⟩ := Bool.and_eq_true_iff.mp hscope
    obtain ⟨hraw, hfirm⟩ := Bool.and_eq_true_iff.mp hfirm
    rw [Expression.full_eq h, Expression.tidy_render hraw h, hfirm, hvacant]
    rfl
  | map entries =>
    obtain rfl := Except.ok.inj h
    exact hscope
  | _ => cases h

/-- A scoring function is full if its filter is. -/
theorem firm_score {name : String} (hname : name ≠ Fragment.cacheKey) (hkey : name ∉ Clause.keys)
    (hrow : name ∉ Clause.rowKeys) {body scope : Value} {u : Criteria.Update}
    (hscope : scope.firmScope = true) (h : score (single name body) scope = .ok u) :
    u.firm = true := by
  obtain ⟨fragment, hfragment, rfl⟩ := score_eq_ok h
  have hfull : (Value.map ((single name body).addSome "filter" (fragment.map .map))).full = true := by
    cases fragment with
    | none =>
      exact (full_single hname body).trans (fullAt_other hkey hrow body)
    | some f =>
      have hne : name ≠ "filter" := by
        rintro rfl
        exact hkey (by decide)
      have hput : (single name body).putText "filter" (.map f) =
          entry name body :: [entry "filter" (.map f)] := by
        simp [single, entry, Mapping.putText, Association.put, hne]
      rw [Option.map_some, Mapping.addSome_some, hput, full_cons_entry hname,
        fullAt_other hkey hrow, List.all_cons, fullAt_clause (by decide) (by decide),
        full_of_clauseFragment hscope (hfragment f rfl)]
      rfl
  refine List.all_eq_true.mpr fun v hv ↦ ?_
  obtain ⟨hmem, -⟩ := List.mem_filter.mp hv
  change v ∈ [Value.map _] at hmem
  rw [List.mem_singleton.mp hmem]
  exact hfull

theorem firm_setCount {name : String} (hkey : name ∉ Clause.keys) (hrow : name ∉ Clause.rowKeys)
    {v : Value} {u : Criteria.Update} (h : setCount name v = .ok u) : u.firm = true := by
  obtain ⟨count, -, h⟩ := bind_eq_ok.mp h
  obtain rfl := Except.ok.inj h
  change fullEntries (single name (.int count)) = true
  rw [single, fullEntries_eq, List.all_cons, fullAt_other hkey hrow]
  rfl

theorem firm_setMode {name : String} {v : Value} {u : Criteria.Update}
    (h : setMode name v = .ok u) : u.firm = true := by
  unfold setMode at h
  split at h
  · obtain rfl := Except.ok.inj h
    rfl
  · cases h

theorem single_of_decayFunction {function field : Value} {params complete : Mapping}
    (h : decayFunction function field params = .ok complete) :
    ∃ name body, complete = single name body ∧ name ∈ Fault.decayNames := by
  unfold decayFunction at h
  split at h
  · cases h
  · rename_i name hname
    obtain ⟨_, -, h⟩ := bind_eq_ok.mp h
    obtain rfl := Except.ok.inj h
    refine ⟨name, _, rfl, ?_⟩
    cases function with
    | text s =>
      have hfind : Fault.decayNames.find? (· == s) = some name := hname
      exact List.mem_of_find?_eq_some hfind
    | _ => cases hname

/-- The update of a firm call is firm. -/
theorem firm_update {call : Call} {u : Criteria.Update} (hcall : call.firm = true)
    (h : call.update = .ok u) : u.firm = true := by
  cases call with
  | query | filter | postFilter =>
    obtain rfl := Except.ok.inj h
    exact hcall
  | request options =>
    obtain rfl := Except.ok.inj h
    exact hcall
  | queryMode | filterMode | postFilterMode => exact firm_setMode h
  | boostMode | scoreMode | strategy | none | simple | types | only | onlyExactly | order | reorder
  | facets | aggregations | suggest | scriptFields =>
    obtain rfl := Except.ok.inj h
    rfl
  | limit | offset => exact firm_setCount (by decide) (by decide) h
  | boostFactor | weight | randomScore =>
    exact firm_score (by decide) (by decide) (by decide) hcall h
  | scriptScore | fieldValueFactor =>
    obtain ⟨_, -, h⟩ := bind_eq_ok.mp h
    exact firm_score (by decide) (by decide) (by decide) hcall h
  | decay =>
    obtain ⟨complete, hcomplete, h⟩ := bind_eq_ok.mp h
    obtain ⟨name, body, rfl, hname⟩ := single_of_decayFunction hcomplete
    have hother : ∀ name ∈ Fault.decayNames,
        name ≠ Fragment.cacheKey ∧ name ∉ Clause.keys ∧ name ∉ Clause.rowKeys := by decide
    obtain ⟨hcache, hkey, hrow⟩ := hother name hname
    exact firm_score hcache hkey hrow hcall h

end Call

/-! ## Sessions -/

namespace Session

/-- The operation brings no hollow clause; a call that is refused brings nothing. -/
def Operation.firm : Operation → Bool
  | .update _ u => u.firm
  | .call _ method args named =>
    match (do (← Call.ofMethod method) args named : Except Fault Call) with
    | .ok made => made.firm
    | .error _ => true
  | _ => true

/-- One step keeps hollow clauses out of every criteria. -/
theorem firm_of_derived {h : Session} {operation : Operation} {d : Criteria}
    (hfirm : ∀ c ∈ h, c.Firm) (hop : operation.firm = true) (hd : Derived h operation d) :
    d.Firm := by
  cases hd with
  | kept hc => exact hfirm d hc
  | created hcreate =>
    obtain ⟨seed, rfl⟩ := Criteria.exists_start_of_create hcreate
    exact Criteria.firm_start _ seed
  | started => exact Criteria.firm_start _ _
  | updated hc hd => exact (hfirm _ hc).updated hop hd
  | @called _ method args named make call _ _ _ hmake hcall hu hc hd =>
    have hparsed : (do (← Call.ofMethod method) args named : Except Fault Call) = .ok call :=
      bind_eq_ok.mpr ⟨make, hmake, hcall⟩
    rw [Operation.firm, hparsed] at hop
    exact (hfirm _ hc).updated (Call.firm_update hop hu) hd
  | combined hc ho => exact (hfirm _ hc).combine (hfirm _ ho)

theorem firm_run {operations : List Operation} (h : ∀ operation ∈ operations, operation.firm = true) :
    ∀ c ∈ Session.run operations, c.Firm :=
  forall_mem_run fun _ hop _ _ hfirm _ hd ↦ firm_of_derived hfirm (h _ hop) hd

/--
Empty fragments are dropped wherever clauses are joined, and nowhere else.  A node whose other raw
fragments have no hollow clause renders without one exactly if no negation and no marker in it stands
over a node that comes down to nothing.  So whatever is done in a session, as long as such wrappers
are not given, nor such filters of scoring functions, nor fragments with hollow clauses of their own:
no body that is compiled has one.
-/
theorem full_body (operations : List Operation) :
    (∀ (e : Expression) f, e.rawFull = true → e.render = .ok f →
      (f = [] ↔ e.vacant = true) ∧
        ((f = [] ∨ (Value.map f).full = true) ↔ e.firm = true)) ∧
    ((∀ operation ∈ operations, operation.firm = true) →
      ∀ c ∈ Session.run operations, ∀ body, c.compile = .ok (Request.document body) →
        fullEntries body = true) := by
  constructor
  · intro e f hraw hf
    rw [← Expression.isEmpty_render hf, ← Expression.tidy_render hraw hf, Fragment.tidy,
      Bool.or_eq_true, List.isEmpty_iff]
    exact ⟨Iff.rfl, Iff.rfl⟩
  · intro hops c hc body hcompile
    obtain ⟨compiled, hbody, hdoc⟩ := bind_eq_ok.mp hcompile
    obtain rfl : compiled = body := by
      have hmaps := Except.ok.inj hdoc
      cases hmaps
      rfl
    exact Request.fullEntries_assembled (firm_run hops c hc) (Request.assembled_of_body hbody)

/-- Empty raw nodes among clauses, in groups and in the filter of a scoring function. -/
theorem full_body_of_session :
    let negation : Expression := .and [.raw [], .not (.term "a" (.int 1))]
    let scope : Expression := .or [.raw [], .present "b"]
    let operations : List Operation :=
      [.search {},
        .call 0 "query" [.node (.or [.raw [], .raw []])] [],
        .call 1 "filter" [.node (.raw []), .node (.cached negation)] [],
        .call 2 "boost_factor" [.int 2] [entry "filter" (.node scope)]]
    let function : Value :=
      .map [entry "boost_factor" (.int 2),
        entry "filter" (.map [entry "exists" (.map [entry "field" (.text "b")])])]
    let c : Criteria :=
      { Criteria.start {} [] with
        queries := [.node (.or [.raw [], .raw []])]
        filters := [.node (.raw []), .node (.cached negation)]
        scores := [function] }
    let body : Mapping :=
      [entry "query" (.map [entry "function_score" (.map [entry "functions" (.list [function]),
        entry "filter" (.map [entry "not" (.map [entry "term" (.map [entry "a" (.int 1)]),
          entry "_cache" (.bool true)])])])])]
    (∀ operation ∈ operations, operation.firm = true) ∧ c ∈ Session.run operations ∧
      c.compile = .ok (Request.document body) ∧ fullEntries body = true := by
  intro negation scope operations function c body
  have hops : ∀ operation ∈ operations, operation.firm = true := by
    simp only [operations, List.forall_mem_cons]
    exact ⟨rfl, rfl, rfl, rfl, fun _ h ↦ absurd h List.not_mem_nil⟩
  have hlast : (Session.run operations).getLast? = some c := by
    dsimp only [operations, negation, scope, c, function]
    rfl
  have hc : c ∈ Session.run operations := List.mem_of_getLast? hlast
  have hcompile : c.compile = .ok (Request.document body) := rfl
  exact ⟨hops, hc, hcompile, (full_body operations).2 hops c hc body hcompile⟩

/--
An empty raw node under a negation, under a marker, or as the filter of a scoring function leaves an
empty clause in the body.
-/
theorem hollow_clause_in_body :
    let calls : List (String × List Value) :=
      [("filter", [.node (.not (.raw []))]), ("filter", [.node (.cached (.raw []))]),
        ("boost_factor", [.int 2, .node (.raw [])])]
    let bodies : List Mapping :=
      [[entry "filter" (.map [entry "not" (.map [])])],
        [entry "filter" (.map [entry "_cache" (.bool true)])],
        [entry "query" (.map [entry "function_score" (.map [entry "functions" (.list
          [.map [entry "boost_factor" (.int 2), entry "filter" (.map [])]])])])]]
    (∀ p ∈ calls.zip bodies, ∃ c,
      Session.run [.search {}, .call 0 p.1.1 p.1.2 []] = [Criteria.start {} [], c] ∧
        c.compile = .ok (Request.document p.2)) ∧
      ∀ body ∈ bodies, fullEntries body = false := by
  intro calls bodies
  constructor
  · simp only [calls, bodies, List.zip_cons_cons, List.zip_nil_right, List.forall_mem_cons]
    exact ⟨⟨_, rfl, rfl⟩, ⟨_, rfl, rfl⟩, ⟨_, rfl, rfl⟩, fun _ h ↦ absurd h List.not_mem_nil⟩
  · simp only [bodies, List.forall_mem_cons]
    exact ⟨rfl, rfl, rfl, fun _ h ↦ absurd h List.not_mem_nil⟩

end Session

end SearchCriteria
