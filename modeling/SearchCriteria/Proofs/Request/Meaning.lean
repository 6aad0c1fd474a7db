import SearchCriteria.Proofs.Request.Compiling
import SearchCriteria.Proofs.Request.Evaluation
import SearchCriteria.Proofs.Request.Sections

/-!
# The meaning of a request

Compilation preserves meaning: a body holds of a document exactly if what the modes say of the queries
and of the filters holds of it, and one of the types does.  Folding the query and the filter into one
query, moving them into a scored query and laying options over the body change nothing about that.
-/

namespace SearchCriteria

open Mapping (entry single ofNamed)
open Request

namespace Evaluation

variable (E : Evaluation)

/-- What a body means: its query, and its filter if it stands beside the query. -/
def meaning (body : Mapping) : Bool :=
  (body.getText? "query").all E.holds && (body.getText? "filter").all E.holds

/-! ## Bodies -/

theorem meaning_leading (strategy : Option String) (q f : Option Value) :
    E.meaning (leading strategy q f) = (q.all E.holds && f.all E.holds) := by
  cases q with
  | none => cases f <;> simp [leading, meaning, Mapping.getText?_cons_entry]
  | some q =>
    cases f with
    | none => simp [leading, meaning, Mapping.getText?_cons_entry]
    | some f =>
      have hfiltered : E.holds (.map (filtered q f strategy)) = (E.holds q && E.holds f) := by
        rw [← E.holds_filtered q f (strategy.map .text)]
        cases strategy <;> rfl
      simp [leading, meaning, Mapping.getText?_cons_entry, hfiltered]

theorem meaning_matchAll : E.meaning matchAll = true := by
  have hall : E.holds (.map (single "match_all" (.map []))) = true := E.holds_matchAll
  change (E.holds (.map (single "match_all" (.map []))) && true) = true
  rw [hall]
  rfl

/-- The sections are no part of the meaning. -/
theorem meaning_append_sections (start : Mapping) (c : Criteria) (p : Option Value) :
    E.meaning (start ++ ofNamed (sections c p)) = E.meaning start := by
  rw [meaning, getText?_append_sections (by decide), getText?_append_sections (by decide), meaning]

/-- A scored query means what the body started with. -/
theorem meaning_scored (c : Criteria) (p : Option Value) (start : Mapping) :
    E.meaning (ofNamed (sections c p) ++ scored c start) = E.meaning start := by
  have hnames : ((scoreParts c start).map Prod.fst).Nodup := by
    change ["functions", "boost_mode", "score_mode", "query", "filter"].Nodup
    decide
  have hquery : (ofNamed (scoreParts c start)).getText? "query" = start.getText? "query" :=
    Mapping.getText?_ofNamed hnames (s := ("query", start.getText? "query")) (by simp [scoreParts])
  have hfilter : (ofNamed (scoreParts c start)).getText? "filter" = start.getText? "filter" :=
    Mapping.getText?_ofNamed hnames (s := ("filter", start.getText? "filter"))
      (by simp [scoreParts])
  have hscored : (ofNamed (sections c p) ++ scored c start).getText? "query" =
      some (.map (single "function_score" (.map (ofNamed (scoreParts c start))))) := by
    rw [Mapping.getText?_append, getText?_sections (by decide) c p]
    rfl
  rw [meaning, hscored, Criteria.getText?_filter_scored, Option.all_some, Option.all_none,
    Bool.and_true]
  change E.holds (.map [entry "function_score" (.map (ofNamed (scoreParts c start)))]) = _
  rw [E.holds_functionScore, hquery, hfilter, meaning]

/-- Options that write neither query nor filter leave the meaning as it is. -/
theorem meaning_overlay {additions : Mapping} (hquery : additions.getText? "query" = none)
    (hfilter : additions.getText? "filter" = none) (base : Mapping) :
    E.meaning (base.overlay additions) = E.meaning base := by
  rw [meaning, Mapping.getText?_overlay_of_eq_none hquery,
    Mapping.getText?_overlay_of_eq_none hfilter, meaning]

/-! ## Clauses -/

/-- Any of the types, if there are any. -/
def ofTypes (names : List String) : Bool :=
  names.isEmpty ||
    names.any fun name ↦ E.holds (.map [entry "type" (.map [entry "value" (.text name)])])

theorem holds_joinedTypes {c : Criteria} {types : Option Value} (h : c.joinedTypes = .ok types) :
    types.all E.holds = E.ofTypes c.types := by
  rw [E.holds_joins (Join.joins_of_eq_ok h), Criteria.present_typeFragments, List.map_map]
  cases hnames : c.types with
  | nil => rfl
  | cons name names =>
    change E.joined .filters (.text "or") _ = _
    rw [E.joined_or .filters (by simp), List.any_map]
    rfl

/-- The filters mean the same, whether they are joined first or stay beside the types. -/
theorem holds_filterParts {mode : Value} {fragments parts : List Value}
    (h : Criteria.filterParts mode fragments = .ok parts) :
    (Join.present parts).all E.holds =
      E.joined .filters mode ((Join.present fragments).map E.holds) := by
  unfold Criteria.filterParts at h
  split at h
  · rename_i hmode
    obtain rfl := Except.ok.inj h
    obtain rfl : mode = .text "and" := by
      cases mode with
      | text s => exact congrArg Value.text (eq_of_beq hmode)
      | _ => cases hmode
    rw [E.joined_and, List.all_map]
    rfl
  · obtain ⟨joined, hjoined, hparts⟩ := bind_eq_ok.mp h
    obtain rfl := Except.ok.inj hparts
    have hjoins := Join.joins_of_eq_ok hjoined
    rw [← E.holds_joins hjoins, hjoins.present_toList]
    cases joined <;> simp

theorem holds_joinedFilter {c : Criteria} {f : Option Value} {fragments : List Value}
    (h : c.joinedFilter = .ok f) (hfragments : clauseFragments c.filters = .ok fragments) :
    f.all E.holds = (E.ofTypes c.types &&
      E.joined .filters (c.mode "filter_mode") ((Join.present fragments).map E.holds)) := by
  obtain ⟨_, types, parts, hother, htypes, hparts, hjoin⟩ := Criteria.joinedFilter_eq_ok h
  obtain rfl := Except.ok.inj (hother.symm.trans hfragments)
  have htoList : types.toList.all E.holds = types.all E.holds := by cases types <;> simp
  rw [E.holds_joins (Join.joins_of_eq_ok hjoin)]
  change E.joined .filters (.text "and") _ = _
  rw [E.joined_and, List.all_map, Join.present_append, (Join.joins_of_eq_ok htypes).present_toList,
    List.all_append, ← E.holds_filterParts hparts, ← E.holds_joinedTypes htypes, ← htoList]
  rfl

/-- However a body is put together, it means what the joined query and filter mean. -/
theorem meaning_assembled {c : Criteria} {body : Mapping} (h : Assembled c body)
    (hquery : c.requestOptions.getText? "query" = none)
    (hfilter : c.requestOptions.getText? "filter" = none) :
    ∃ q f, c.joinedQuery = .ok q ∧ c.joinedFilter = .ok f ∧
      E.meaning body = (q.all E.holds && f.all E.holds) := by
  cases h with
  | @simple q f strategy _ hstart =>
    refine ⟨q, f, hstart.query, hstart.filter, ?_⟩
    split
    · rename_i hempty
      obtain ⟨rfl, rfl⟩ := (leading_isEmpty strategy q f).mp hempty
      exact E.meaning_matchAll
    · exact E.meaning_leading strategy q f
  | @plain q f p strategy _ _ hstart _ =>
    refine ⟨q, f, hstart.query, hstart.filter, ?_⟩
    rw [E.meaning_overlay hquery hfilter, E.meaning_append_sections, E.meaning_leading]
  | @boosted q f p strategy _ _ hstart _ =>
    refine ⟨q, f, hstart.query, hstart.filter, ?_⟩
    rw [E.meaning_overlay hquery hfilter, E.meaning_scored, E.meaning_leading]

end Evaluation

namespace Criteria

variable {c : Criteria}

/--
Compilation preserves meaning.  If the request options write neither query nor filter, the compiled
body holds exactly if the queries hold under their mode, one of the types does, and the filters hold
under theirs, whichever way these were joined and folded.  A criteria whose nodes render, whose modes
can be looked up and whose strategy has a text is never refused.
-/
theorem compile_meaning (hc : Reachable c) (hquery : c.requestOptions.getText? "query" = none)
    (hfilter : c.requestOptions.getText? "filter" = none) (E : Evaluation) :
    (c.Compilable → ∃ body, c.compile = .ok [entry "body" (.map body)]) ∧
    ∀ body, c.compile = .ok [entry "body" (.map body)] →
      ∃ queries filters,
        clauseFragments c.queries = .ok queries ∧ clauseFragments c.filters = .ok filters ∧
        E.meaning body =
          (E.joined .queries (c.mode "query_mode") ((queries.filter Value.truthy).map E.holds) &&
            (E.ofTypes c.types &&
              E.joined .filters (c.mode "filter_mode")
                ((filters.filter Value.truthy).map E.holds))) := by
  refine ⟨exists_compile hc.settled, fun body hcompile ↦ ?_⟩
  obtain ⟨_, hdoc, hbody⟩ := document_of_compile hcompile
  cases hdoc
  obtain ⟨q, f, hq, hf, hmeaning⟩ := E.meaning_assembled hbody hquery hfilter
  obtain ⟨queries, hqueries, hjoins⟩ := joinedQuery_eq_ok hq
  obtain ⟨filters, _, _, hfilters, -, -, -⟩ := joinedFilter_eq_ok hf
  refine ⟨queries, filters, hqueries, hfilters, ?_⟩
  rw [hmeaning, E.holds_joins hjoins, E.holds_joinedFilter hf hfilters]
  rfl

/-- A lone negated filter stays negated beside a type, inside a scored query. -/
theorem compile_meaning_of_negation :
    let c := (start {} []).replay
      [{ storage := .queries, patch := .map [entry "match" (.map [entry "title" (.text "a")])] },
       { storage := .filters, patch := .node (.present "draft") },
       { storage := .options, patch := .map [entry "filter_mode" (.text "must_not")] },
       { storage := .types, patch := .text "post" },
       { storage := .scores, patch := .map [entry "weight" (.int 2)] }]
    let E := Evaluation.ofLeaves (fun v ↦ !v.equal (.map (Fragment.present "draft")))
      fun _ truths ↦ truths.any id
    ∃ body, c.compile = .ok [entry "body" (.map body)] ∧
      E.meaning body =
        (E.holds (.map [entry "match" (.map [entry "title" (.text "a")])]) &&
          (E.ofTypes ["post"] && !E.holds (.map (Fragment.present "draft")))) := by
  intro c E
  have hmodes : ∀ name ∈ Config.modeNames, (c.mode name).unhashable? = none :=
    List.forall_mem_cons.mpr ⟨rfl, List.forall_mem_cons.mpr ⟨rfl, List.forall_mem_singleton.mpr rfl⟩⟩
  have hjoinable : c.Joinable := by
    refine ⟨fun e he ↦ ?_, fun e he ↦ ?_, fun e he ↦ absurd he List.not_mem_nil, hmodes⟩
    · cases List.mem_singleton.mp he
    · cases List.mem_singleton.mp he
      trivial
  have hcompilable : c.Compilable := ⟨hjoinable, none, rfl⟩
  obtain ⟨hexists, hmeaning⟩ := compile_meaning ((reachable_start {}).replay _)
    (show c.requestOptions.getText? "query" = none from rfl)
    (show c.requestOptions.getText? "filter" = none from rfl) E
  obtain ⟨body, hbody⟩ := hexists hcompilable
  obtain ⟨queries, filters, hqueries, hfilters, hall⟩ := hmeaning body hbody
  cases hqueries
  cases hfilters
  exact ⟨body, hbody, hall⟩

end Criteria

end SearchCriteria
