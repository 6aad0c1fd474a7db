import SearchCriteria.Proofs.Request.Compiling
import SearchCriteria.Proofs.Request.Grouping
import SearchCriteria.Proofs.Session.Refinement

/-!
# Scoring functions

Every call that scores adds one function to the search that it makes, and nothing else does.
`Scored` follows a run of searches and keeps, place by place, which functions were asked for; the
criteria at the place holds what they give, one for one.  A function has a name and so is never
blank, which is why it comes through its own patch and through every merge as it is.
-/

namespace SearchCriteria

open Mapping (entry)

/-! ## Calls that score -/

/-- The methods that score. -/
def Call.scoringMethods : List String :=
  ["boost_factor", "weight", "random_score", "script_score", "field_value_factor", "decay"]

/-- A scoring function that a call asks for, and the filter that it comes with; null is none. -/
structure Scoring where
  function : Mapping
  scope : Value

namespace Scoring

/-- The arguments of the call are the parameters of the function, and its filter behind them. -/
def AskedBy (s : Scoring) (method : String) (args : List Value) (named : Mapping) : Prop :=
  ∃ required optional values, Call.Scores method required optional values s.function ∧
    Call.Takes method required (optional ++ ["filter"]) args named (values ++ [s.scope])

/-- What it gives: the function by itself, or with the fragment of its own filter beside it. -/
structure Gives (s : Scoring) (function : Mapping) : Prop where
  own : s.function.getText? "filter" = none
  made : ∃ narrowing, Call.Narrows s.scope narrowing ∧ function = s.function ++ narrowing

end Scoring

namespace Call

variable {method : String} {required optional : List String} {values args : List Value}
  {function named : Mapping} {u : Criteria.Update}

theorem Scores.mem_scoringMethods (h : Scores method required optional values function) :
    method ∈ scoringMethods := by
  cases h <;> decide

/-- A scoring function goes by one name, which is not that of its filter. -/
theorem Scores.exists_name (h : Scores method required optional values function) :
    ∃ name body, function = [entry name body] ∧ name ≠ "filter" := by
  cases h with
  | @decay name _ _ _ _ _ hname =>
    refine ⟨name, _, rfl, ?_⟩
    rintro rfl
    exact absurd hname (by decide)
  | _ => exact ⟨_, _, rfl, by decide⟩

/-- A call that scores adds what the function gives that it asks for, and no other call adds any. -/
theorem Stands.scoring_or (h : Stands method args named u) :
    (method ∈ scoringMethods ∧ ∃ (s : Scoring) (narrowing : Mapping),
      s.AskedBy method args named ∧ Narrows s.scope narrowing ∧
      u = { storage := .scores, patch := .list [.map (s.function ++ narrowing)] }) ∨
    method ∉ scoringMethods ∧ u.storage ≠ .scores := by
  cases h with
  | @score _ required optional _ _ values function scope narrowing h hvalues hscope =>
    exact .inl ⟨h.mem_scoringMethods, ⟨function, scope⟩, narrowing,
      ⟨required, optional, values, h, hvalues⟩, hscope, rfl⟩
  | appends h =>
    simp only [List.mem_cons, List.not_mem_nil, or_false, Prod.mk.injEq] at h
    rcases h with ⟨rfl, rfl⟩ | ⟨rfl, rfl⟩ | ⟨rfl, rfl⟩ | ⟨rfl, rfl⟩ | ⟨rfl, rfl⟩ | ⟨rfl, rfl⟩ <;>
      exact .inr ⟨by decide, nofun⟩
  | replaces h =>
    simp only [List.mem_cons, List.not_mem_nil, or_false, Prod.mk.injEq] at h
    rcases h with ⟨rfl, rfl⟩ | ⟨rfl, rfl⟩ <;> exact .inr ⟨by decide, nofun⟩
  | mode h | option h =>
    simp only [List.mem_cons, List.not_mem_nil, or_false] at h
    rcases h with rfl | rfl | rfl <;> exact .inr ⟨by decide, nofun⟩
  | flag h =>
    simp only [List.mem_cons, List.not_mem_nil, or_false] at h
    rcases h with rfl | rfl <;> exact .inr ⟨by decide, nofun⟩
  | count h =>
    simp only [List.mem_cons, List.not_mem_nil, or_false, Prod.mk.injEq] at h
    rcases h with ⟨rfl, rfl⟩ | ⟨rfl, rfl⟩ <;> exact .inr ⟨by decide, nofun⟩
  | request => exact .inr ⟨by decide, nofun⟩
  | extra h =>
    simp only [List.mem_cons, List.not_mem_nil, or_false, Prod.mk.injEq] at h
    rcases h with ⟨rfl, rfl, rfl⟩ | ⟨rfl, rfl, rfl⟩ | ⟨rfl, rfl, rfl⟩ | ⟨rfl, rfl, rfl⟩ |
      ⟨rfl, rfl, rfl⟩ <;> exact .inr ⟨by decide, nofun⟩

end Call

namespace Criteria

variable {c d : Criteria}

/-- The scoring functions change by an update of their own storage and by no other. -/
theorem Updated.scores_eq {u : Update} (h : Updated c u d) (hu : u.storage ≠ .scores) :
    d.scores = c.scores := by
  cases h with
  | scores => exact absurd rfl hu
  | _ => rfl

/-- A function that holds something is added as it is. -/
theorem Updated.scores_of_function {function : Mapping} (hfunction : function ≠ [])
    (h : Updated c { storage := .scores, patch := .list [.map function] } d) :
    d.scores = c.scores ++ [.map function] := by
  have hitems : Patch.items (.list [.map function]) = [.map function] :=
    Patch.items_eq_self (List.forall_mem_singleton.mpr trivial)
      (List.forall_mem_singleton.mpr (by simpa [Value.isBlank] using hfunction))
  cases h with
  | scores => exact congrArg (c.scores ++ ·) hitems

end Criteria

namespace Scoring

variable {s : Scoring} {method : String} {args : List Value} {named narrowing : Mapping}

theorem AskedBy.gives (h : s.AskedBy method args named) (hscope : Call.Narrows s.scope narrowing) :
    s.Gives (s.function ++ narrowing) where
  own := by
    obtain ⟨required, optional, values, hscores, -⟩ := h
    obtain ⟨name, body, hfunction, hname⟩ := hscores.exists_name
    rw [hfunction, Mapping.getText?_cons_entry, if_neg hname, Mapping.getText?_nil]
  made := ⟨narrowing, hscope, rfl⟩

theorem AskedBy.ne_nil (h : s.AskedBy method args named) (narrowing : Mapping) :
    s.function ++ narrowing ≠ [] := by
  obtain ⟨required, optional, values, hscores, -⟩ := h
  obtain ⟨name, body, hfunction, -⟩ := hscores.exists_name
  rw [hfunction]
  exact List.cons_ne_nil _ _

theorem AskedBy.read_eq (h : s.AskedBy method args named)
    (hscope : Call.Narrows s.scope narrowing) : Call.read method args named =
      .ok { storage := .scores, patch := .list [.map (s.function ++ narrowing)] } := by
  obtain ⟨required, optional, values, hscores, hvalues⟩ := h
  exact Call.read_of_scores hscores hvalues hscope

end Scoring

namespace Session

variable {h : Session} {c o : Criteria} {place other new : Nat}

/-! ## Runs of searches -/

/-- Searches are started, called, merged and compiled, and nothing is done in place. -/
def Operation.OnSearches : Operation → Prop
  | .search _ => True
  | operation => operation.Chaining

/-- Whatever is done with searches, every criteria stays at its place as it was. -/
theorem prefix_after_of_onSearches (hh : h.Settled) {operation : Operation}
    (hop : operation.OnSearches) : h <+: h.after operation := by
  cases operation with
  | search config => exact List.prefix_append h [Criteria.start config []]
  | _ => exact prefix_after hh hop

theorem run_concat (operations : List Operation) (operation : Operation) :
    run (operations ++ [operation]) = (run operations).after operation := List.foldl_concat ..

/-- A call that answers was read, and the criteria at the new place is updated by it. -/
theorem exists_of_call (hc : h[place]? = some c) {method : String} {args : List Value}
    {named : Mapping} (hnew : Answers h (.call place method args named) new) :
    ∃ u d, Call.read method args named = .ok u ∧ Criteria.Updated c u d ∧
      (h.after (.call place method args named))[new]? = some d := by
  cases hread : Call.read method args named with
  | error fault =>
    obtain ⟨left, hleft⟩ := hnew
    rw [perform_call_of_error hread] at hleft
    cases hleft
  | ok u =>
    obtain ⟨d, hd, hplace⟩ := exists_of_onNew (perform_call_of_ok hc hread) hnew
    rw [Criteria.updating_eq_edit, EStateM.run, Criteria.edit_eq_wholly] at hd
    cases hu : c.apply u with
    | error fault =>
      rw [hu] at hd
      cases hd
    | ok e =>
      rw [hu] at hd
      cases hd
      exact ⟨u, d, rfl, Criteria.updated_of_apply hu, hplace⟩

/-- The scoring functions that the calls behind a search ask for, in their order. -/
inductive Scored : List Operation → Nat → List Scoring → Prop
  | started {operations config new} (hnew : Answers (run operations) (.search config) new) :
      Scored (operations ++ [.search config]) new []
  | kept {operations place scorings} (h : Scored operations place scorings)
      (operation : Operation) : Scored (operations ++ [operation]) place scorings
  | scored {operations place scorings s method args named narrowing new}
      (h : Scored operations place scorings) (hs : Scoring.AskedBy s method args named)
      (hscope : Call.Narrows s.scope narrowing)
      (hnew : Answers (run operations) (.call place method args named) new) :
      Scored (operations ++ [.call place method args named]) new (scorings ++ [s])
  | called {operations place scorings method args named new}
      (h : Scored operations place scorings) (hmethod : method ∉ Call.scoringMethods)
      (hnew : Answers (run operations) (.call place method args named) new) :
      Scored (operations ++ [.call place method args named]) new scorings
  /-- The functions of the other search follow. -/
  | merged {operations place scorings other others new} (h : Scored operations place scorings)
      (hother : Scored operations other others)
      (hnew : Answers (run operations) (.mergeSearch place (.search other)) new) :
      Scored (operations ++ [.mergeSearch place (.search other)]) new (scorings ++ others)

/-- The criteria scores by what the scoring functions give, one for one. -/
def ScoresBy (c : Criteria) (scorings : List Scoring) (functions : List Mapping) : Prop :=
  List.Forall₂ Scoring.Gives scorings functions ∧ c.scores = functions.map .map

theorem Scored.exists_scoresBy {operations : List Operation} {scorings : List Scoring}
    (hscored : Scored operations place scorings)
    (hops : ∀ operation ∈ operations, operation.OnSearches) :
    ∃ c functions, (run operations)[place]? = some c ∧ ScoresBy c scorings functions := by
  induction hscored with
  | @started operations config new hnew =>
    obtain ⟨left, hleft⟩ := hnew
    cases hleft
    refine ⟨Criteria.start config [], [], ?_, .nil, rfl⟩
    rw [run_concat]
    exact List.getElem?_concat_length
  | @kept operations place scorings _ operation ih =>
    obtain ⟨hops, hop⟩ := List.forall_mem_append.mp hops
    obtain ⟨c, functions, hc, hby⟩ := ih hops
    have hprefix := prefix_after_of_onSearches (settled_run operations)
      (hop operation (List.mem_singleton_self _))
    refine ⟨c, functions, ?_, hby⟩
    rw [run_concat]
    exact getElem?_of_prefix hprefix hc
  | @scored operations place scorings s method args named narrowing new _ hs hscope hnew ih =>
    obtain ⟨c, functions, hc, hgives, hscores⟩ := ih (List.forall_mem_append.mp hops).1
    obtain ⟨u, d, hread, hd, hplace⟩ := exists_of_call hc hnew
    obtain rfl := Except.ok.inj (hread.symm.trans (hs.read_eq hscope))
    refine ⟨d, functions ++ [s.function ++ narrowing], by rwa [run_concat], ?_, ?_⟩
    · exact List.rel_append hgives (.cons (hs.gives hscope) .nil)
    · rw [hd.scores_of_function (hs.ne_nil narrowing), hscores, List.map_append, List.map_singleton]
  | @called operations place scorings method args named new _ hmethod hnew ih =>
    obtain ⟨c, functions, hc, hgives, hscores⟩ := ih (List.forall_mem_append.mp hops).1
    obtain ⟨u, d, hread, hd, hplace⟩ := exists_of_call hc hnew
    have hother : u.storage ≠ .scores := by
      rcases (Call.stands_of_read hread).scoring_or with ⟨hscoring, -⟩ | ⟨-, hother⟩
      · exact absurd hscoring hmethod
      · exact hother
    exact ⟨d, functions, by rwa [run_concat], hgives, (hd.scores_eq hother).trans hscores⟩
  | @merged operations place scorings other others new _ _ hnew ih ihother =>
    have hops := (List.forall_mem_append.mp hops).1
    obtain ⟨c, functions, hc, hgives, hscores⟩ := ih hops
    obtain ⟨o, more, ho, hmore, hotherScores⟩ := ihother hops
    have hsettled := (settled_run operations).get ho
    obtain ⟨d, hd, hplace⟩ := exists_of_onNew (perform_mergeSearch hsettled hc ho) hnew
    rw [hsettled.run_mergeInto] at hd
    cases hd
    refine ⟨c.combine o, functions ++ more, by rwa [run_concat], List.rel_append hgives hmore, ?_⟩
    change c.scores ++ o.scores = _
    rw [hscores, hotherScores, List.map_append]

/-- A call on a search scores or does not, and leads to a search either way. -/
theorem Scored.of_call {operations : List Operation} {scorings : List Scoring}
    (hscored : Scored operations place scorings) (hc : (run operations)[place]? = some c)
    {method : String} {args : List Value} {named : Mapping}
    (hnew : Answers (run operations) (.call place method args named) new) :
    (method ∈ Call.scoringMethods → ∃ s : Scoring, s.AskedBy method args named ∧
      Scored (operations ++ [.call place method args named]) new (scorings ++ [s])) ∧
    (method ∉ Call.scoringMethods →
      Scored (operations ++ [.call place method args named]) new scorings) := by
  refine ⟨fun hmethod ↦ ?_, fun hmethod ↦ .called hscored hmethod hnew⟩
  obtain ⟨u, d, hread, -, -⟩ := exists_of_call hc hnew
  rcases (Call.stands_of_read hread).scoring_or with ⟨-, s, narrowing, hs, hscope, -⟩ | ⟨hnot, -⟩
  · exact ⟨s, hs, .scored hscored hs hscope hnew⟩
  · exact absurd hmethod hnot

/-- Searches of a run can always be merged. -/
theorem perform_mergeSearch_eq (hh : h.Settled) (hc : h[place]? = some c)
    (ho : h[other]? = some o) : (Operation.mergeSearch place (.search other)).perform h =
      .ok (.search h.length) (h ++ [c.combine o]) := by
  rw [perform_mergeSearch (hh.get ho) hc ho, (hh.get ho).run_mergeInto]
  rfl

/--
Every call that scores contributes one function.  In a run of searches, the criteria of a search
scores by the functions that the calls behind it ask for, in the order of the calls, with those of a
merged search behind those of the search that it was merged into: each as its call describes it,
with the fragment of its own filter if it was given one.  If there are any, if the search is not
simple and no request option stands in for the query, the query of its document is a scored one with
just these functions.  A call that answers adds one function if it is one that scores and none
otherwise, and any two searches can be merged.
-/
theorem scoring_functions {operations : List Operation} {scorings : List Scoring}
    (hops : ∀ operation ∈ operations, operation.OnSearches)
    (hscored : Scored operations place scorings) :
    ∃ c functions, (run operations)[place]? = some c ∧ ScoresBy c scorings functions ∧
      (scorings ≠ [] → Request.isSimple c = false → c.requestOptions.getText? "query" = none →
        (c.Compilable → ∃ body, c.compile = .ok (Request.document body)) ∧
        ∀ body, c.compile = .ok (Request.document body) → ∃ parts : Mapping,
          body.getText? "query" = some (.map [entry "function_score" (.map parts)]) ∧
          parts.getText? "functions" = some (.list (functions.map .map))) ∧
      (∀ method args named new, Answers (run operations) (.call place method args named) new →
        (method ∈ Call.scoringMethods → ∃ s : Scoring, s.AskedBy method args named ∧
          Scored (operations ++ [.call place method args named]) new (scorings ++ [s])) ∧
        (method ∉ Call.scoringMethods →
          Scored (operations ++ [.call place method args named]) new scorings)) ∧
      ∀ other others, Scored operations other others → ∃ new,
        Answers (run operations) (.mergeSearch place (.search other)) new ∧
        Scored (operations ++ [.mergeSearch place (.search other)]) new (scorings ++ others) := by
  have hsettled := settled_run operations
  obtain ⟨c, functions, hc, hgives, hscores⟩ := hscored.exists_scoresBy hops
  refine ⟨c, functions, hc, ⟨hgives, hscores⟩, fun hne hsimple hoptions ↦ ?_,
    fun _ _ _ _ ↦ hscored.of_call hc, fun other others hother ↦ ?_⟩
  · refine ⟨Criteria.exists_compile (hsettled.get hc), fun body hbody ↦ ?_⟩
    have hfunctions : c.scores ≠ [] := by
      rw [hscores]
      cases hgives with
      | nil => exact absurd rfl hne
      | cons => exact List.cons_ne_nil _ _
    rw [← hscores]
    exact Criteria.getText?_query_of_compile hbody hsimple hfunctions hoptions
  · obtain ⟨o, _, ho, -⟩ := hother.exists_scoresBy hops
    have hnew : Answers (run operations) (.mergeSearch place (.search other)) _ :=
      ⟨_, perform_mergeSearch_eq hsettled hc ho⟩
    exact ⟨_, hnew, .merged hscored hother hnew⟩

/-- A factor of zero, settings that are empty, parameters that are empty lists, and a merge. -/
theorem scoring_functions_of_branches :
    let b : Value := .node (.present "b")
    let nested : Value := .map [entry "xs" (.list [.list [], .null])]
    let factor : Mapping := [entry "boost_factor" (.int 0)]
    let settings : Mapping := [entry "field_value_factor" (.map [])]
    let narrowed := settings ++ [entry "filter" (.map (Fragment.present "b"))]
    let script : Mapping :=
      [entry "script_score" (.map [entry "script" (.text "_score"), entry "params" nested])]
    let first : List Operation := [.search {}, .call 0 "filter" [b] [],
      .call 1 "boost_factor" [.int 0] [], .call 2 "field_value_factor" [.map []] [entry "filter" b]]
    let branches := first ++ [.call 0 "script_score" [.text "_score", nested] []]
    let operations := branches ++ [.mergeSearch 3 (.search 4)]
    let c := { Criteria.start {} [] with
      filters := [b], scores := [.map factor, .map narrowed, .map script] }
    (∀ operation ∈ operations, operation.OnSearches) ∧
      Scored operations 5 [⟨factor, .null⟩, ⟨settings, b⟩, ⟨script, .null⟩] ∧
      (run operations)[5]? = some c ∧ Request.isSimple c = false ∧
      ∃ body parts, c.compile = .ok (Request.document body) ∧
        body.getText? "query" = some (.map [entry "function_score" (.map parts)]) ∧
        Mapping.getText? parts "functions" =
          some (.list [.map factor, .map narrowed, .map script]) := by
  intro b nested factor settings narrowed script first branches operations c
  let start := Criteria.start {} []
  have hops : ∀ operation ∈ operations, operation.OnSearches := by
    simp [operations, branches, first, Operation.OnSearches, Operation.Chaining]
  have hfirst : run first = [start, { start with filters := [b] },
      { start with filters := [b], scores := [.map factor] },
      { start with filters := [b], scores := [.map factor, .map narrowed] }] := rfl
  have hbranches : run branches = run first ++ [{ start with scores := [.map script] }] := by
    rw [run_concat, hfirst]
    rfl
  have hmerge : (Operation.mergeSearch 3 (.search 4)).perform (run branches) =
      .ok (.search 5) (run branches ++ [c]) := by
    have hthird : (run branches)[3]? =
        some { start with filters := [b], scores := [.map factor, .map narrowed] } := by
      rw [hbranches, hfirst]
      rfl
    have hfourth : (run branches)[4]? = some { start with scores := [.map script] } := by
      rw [hbranches, hfirst]
      rfl
    rw [perform_mergeSearch_eq (settled_run branches) hthird hfourth, hbranches, hfirst]
    rfl
  -- the first branch, with a call that does not score before those that do
  have hstarted : Scored ([] ++ [.search {}]) 0 [] := .started ⟨_, rfl⟩
  have hfilter : Scored ([.search {}] ++ [.call 0 "filter" [b] []]) 1 [] :=
    .called hstarted (by decide) ⟨_, rfl⟩
  have hfactor : Scored ([.search {}, .call 0 "filter" [b] []] ++
      [.call 1 "boost_factor" [.int 0] []]) 2 ([] ++ [⟨factor, .null⟩]) :=
    .scored hfilter ⟨_, _, [.int 0], .factor, rfl⟩ .nothing ⟨_, rfl⟩
  have hsettings : Scored first 3 [⟨factor, .null⟩, ⟨settings, b⟩] :=
    .scored hfactor ⟨_, _, [.map []], .fieldValue rfl, rfl⟩ (.filter rfl) ⟨_, rfl⟩
  -- the second branch, from the search at the start
  have hkept : Scored first 0 [] := .kept (.kept (.kept hstarted _) _) _
  have hscript : Scored branches 4 ([] ++ [⟨script, .null⟩]) := by
    refine .scored hkept ⟨_, _, [.text "_score", nested], .scriptWith rfl rfl, rfl⟩ .nothing ?_
    rw [hfirst]
    exact ⟨_, rfl⟩
  have hmerged : Scored operations 5 [⟨factor, .null⟩, ⟨settings, b⟩, ⟨script, .null⟩] :=
    .merged (.kept hsettings _) hscript ⟨_, hmerge⟩
  have hplace : (run operations)[5]? = some c := by
    rw [run_concat, after_eq_left, hmerge, hbranches, hfirst]
    rfl
  obtain ⟨d, functions, hd, ⟨-, hscores⟩, hdocument, -⟩ := scoring_functions hops hmerged
  obtain rfl : c = d := Option.some.inj (hplace.symm.trans hd)
  obtain ⟨-, hquery⟩ := hdocument (List.cons_ne_nil _ _) rfl rfl
  have hcompiles : ∃ body, c.compile = .ok (Request.document body) := ⟨_, rfl⟩
  obtain ⟨body, hbody⟩ := hcompiles
  obtain ⟨parts, hparts, hfunctions⟩ := hquery body hbody
  rw [← hscores] at hfunctions
  exact ⟨hops, hmerged, hplace, rfl, body, parts, hbody, hparts, hfunctions⟩

end Session

end SearchCriteria
