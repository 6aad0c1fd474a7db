import SearchCriteria.Proofs.Request.Compiling
import SearchCriteria.Proofs.Value.Named

/-!
# The sections of a request

A body starts with the joined query and filter.  The sections follow in a fixed order, each there if
its storage holds anything; scoring functions move the query and the filter behind them.  The request
options are laid over all this at the end.
-/

namespace SearchCriteria.Request

open Mapping (entry single ofNamed)

variable {c : Criteria}

/-! ## The start of a body -/

/-- What a body starts with: the query, with the filter folded into it, or the filter alone. -/
def leading (strategy : Option String) : Option Value → Option Value → Mapping
  | some q, some f => [entry "query" (.map (filtered q f strategy))]
  | some q, none => [entry "query" q]
  | none, some f => [entry "filter" f]
  | none, none => []

/-- The strategy is written out if there are both a query and a filter. -/
theorem base_eq_ok {q f strategy : Option Value} {start : Mapping}
    (h : base q f strategy = .ok start) : ∃ text, start = leading text q f ∧
      (q.isSome = true → f.isSome = true →
        (strategy.filter Value.truthy).mapM Value.display = .ok text) := by
  cases q with
  | none =>
    cases f with
    | none => exact ⟨none, (Except.ok.inj h).symm, nofun⟩
    | some f => exact ⟨none, (Except.ok.inj h).symm, nofun⟩
  | some q =>
    cases f with
    | none => exact ⟨none, (Except.ok.inj h).symm, nofun⟩
    | some f =>
      obtain ⟨text, htext, hstart⟩ := bind_eq_ok.mp h
      exact ⟨text, (Except.ok.inj hstart).symm, fun _ _ ↦ htext⟩

theorem leading_isEmpty (strategy : Option String) (q f : Option Value) :
    (leading strategy q f).isEmpty = true ↔ q = none ∧ f = none := by
  cases q <;> cases f <;> simp [leading]

/-- A body starts with nothing but a query or a filter. -/
theorem getText?_leading {name : String} (hquery : "query" ≠ name) (hfilter : "filter" ≠ name)
    (strategy : Option String) (q f : Option Value) :
    (leading strategy q f).getText? name = none := by
  cases q <;> cases f <;>
    simp only [leading, Mapping.getText?_cons_entry, if_neg hquery, if_neg hfilter,
      Mapping.getText?_nil]

/-! ## The sections -/

/-- The sections that follow, by name and in order. -/
def sections (c : Criteria) (postFilter : Option Value) : List (String × Option Value) :=
  [("post_filter", postFilter),
   ("facets", if c.facets.isEmpty then none else some (.map c.facets)),
   ("aggregations", if c.aggregations.isEmpty then none else some (.map c.aggregations)),
   ("suggest", if c.suggest.isEmpty then none else some (.map c.suggest)),
   ("sort", if c.sort.isEmpty then none else some (.list c.sort)),
   ("_source", if c.fields.isEmpty then none else some (.list (c.fields.map .text))),
   ("script_fields", if c.scriptFields.isEmpty then none else some (.map c.scriptFields))]

/-- The names of the sections. -/
def sectionNames : List String :=
  ["post_filter", "facets", "aggregations", "suggest", "sort", "_source", "script_fields"]

theorem map_fst_sections (c : Criteria) (postFilter : Option Value) :
    (sections c postFilter).map Prod.fst = sectionNames := rfl

/-- A section is there unless its storage is empty. -/
theorem attached_eq {s : Storage} (empty : Bool) (h : (c.content s).truthy = !empty) :
    Request.section? c s = if empty then none else some (c.content s) := by
  rw [section?, Criteria.holds, h]
  cases empty <;> rfl

theorem attach_eq_foldl (c : Criteria) (postFilter : Option Value) (start : Mapping) :
    attach c postFilter start =
      (sections c postFilter).foldl (fun m s ↦ m.addSome s.1 s.2) start := by
  have hfields : (c.content .fields).truthy = !c.fields.isEmpty := by
    rw [← List.isEmpty_map (f := Value.text)]
    rfl
  have hmap : ∀ {s entries}, c.content s = .map entries →
      Request.section? c s = if entries.isEmpty then none else some (.map entries) := by
    intro s entries h
    rw [attached_eq entries.isEmpty, h]
    rw [h, Value.truthy_map]
  rw [attach, hmap (s := .facets) rfl, hmap (s := .aggregations) rfl, hmap (s := .suggest) rfl,
    hmap (s := .scriptFields) rfl, attached_eq c.fields.isEmpty hfields,
    attached_eq (s := .sort) c.sort.isEmpty rfl]
  rfl

/-- Attached sections follow in order what a body starts with. -/
theorem attach_leading (c : Criteria) (postFilter : Option Value) (strategy : Option String)
    (q f : Option Value) :
    attach c postFilter (leading strategy q f) =
      leading strategy q f ++ ofNamed (sections c postFilter) := by
  have hnames : ((sections c postFilter).map Prod.fst).Nodup := by
    rw [map_fst_sections]
    decide
  rw [attach_eq_foldl]
  refine Mapping.foldl_addSome hnames fun name hname ↦ ?_
  rw [map_fst_sections] at hname
  refine getText?_leading ?_ ?_ strategy q f
  · rintro rfl
    exact absurd hname (by decide)
  · rintro rfl
    exact absurd hname (by decide)

theorem getText?_sections {name : String} (h : name ∉ sectionNames) (c : Criteria)
    (postFilter : Option Value) : (ofNamed (sections c postFilter)).getText? name = none :=
  Mapping.getText?_ofNamed_of_not_mem h

/-- Under any other name than theirs the sections hide nothing of what the body starts with. -/
theorem getText?_append_sections {name : String} (h : name ∉ sectionNames) (start : Mapping)
    (c : Criteria) (postFilter : Option Value) :
    (start ++ ofNamed (sections c postFilter)).getText? name = start.getText? name := by
  rw [Mapping.getText?_append, getText?_sections h, Option.or_none]

/-! ## Scoring functions -/

/-- What a scored query consists of: the functions, their modes, and what was scored. -/
def scoreParts (c : Criteria) (start : Mapping) : List (String × Option Value) :=
  [("functions", some (.list c.scores)),
   ("boost_mode", c.options.truthy? "boost_mode"),
   ("score_mode", c.options.truthy? "score_mode"),
   ("query", start.getText? "query"),
   ("filter", start.getText? "filter")]

/-- The scored query in place of what a body starts with. -/
def scored (c : Criteria) (start : Mapping) : Mapping :=
  single "query" (.map (single "function_score" (.map (ofNamed (scoreParts c start)))))

theorem functionScore_eq (scores : List Value) (options : Mapping) (query filter : Option Value) :
    functionScore scores options query filter = single "function_score" (.map (ofNamed
      [("functions", some (.list scores)), ("boost_mode", options.truthy? "boost_mode"),
        ("score_mode", options.truthy? "score_mode"), ("query", query), ("filter", filter)])) := by
  have hnames : ["functions", "boost_mode", "score_mode", "query", "filter"].Nodup := by decide
  have hfold := Mapping.foldl_addSome (m := []) (s := [("functions", some (.list scores)),
    ("boost_mode", options.truthy? "boost_mode"), ("score_mode", options.truthy? "score_mode"),
    ("query", query), ("filter", filter)]) hnames fun _ _ ↦ rfl
  rw [List.nil_append] at hfold
  rw [← hfold]
  rfl

/-- Nothing is dropped of a query or filter that counts. -/
theorem present?_eq_getText? {mapping : Mapping} {name : String}
    (h : mapping.getText? name ≠ some .null) : mapping.present? name = mapping.getText? name := by
  unfold Mapping.present?
  split
  · contradiction
  · rename_i hnone
    exact hnone.symm
  · rename_i hsome
    exact hsome.symm

theorem getText?_entry_ne_null {value : Value} (h : value ≠ .null) (key name : String) :
    Mapping.getText? [entry key value] name ≠ some .null := by
  rw [Mapping.getText?_cons_entry]
  split
  · exact fun hvalue ↦ h (Option.some.inj hvalue)
  · exact nofun

/-- A query and a filter that are not null leave no null in what a body starts with. -/
theorem getText?_leading_ne_null {q f : Option Value} (hq : q ≠ some .null) (hf : f ≠ some .null)
    (strategy : Option String) (name : String) :
    (leading strategy q f).getText? name ≠ some .null := by
  cases q with
  | none =>
    cases f with
    | none => exact nofun
    | some f => exact getText?_entry_ne_null (fun h ↦ hf (congrArg some h)) "filter" name
  | some q =>
    cases f with
    | none => exact getText?_entry_ne_null (fun h ↦ hq (congrArg some h)) "query" name
    | some f =>
      have hfolded : Value.map (filtered q f strategy) ≠ .null := nofun
      exact getText?_entry_ne_null hfolded "query" name

/-- Without its query and filter a body has its sections left. -/
theorem eraseText_leading (strategy : Option String) (q f : Option Value) (c : Criteria)
    (postFilter : Option Value) :
    ((leading strategy q f ++ ofNamed (sections c postFilter)).eraseText "query").eraseText
      "filter" = ofNamed (sections c postFilter) := by
  have herased : ((leading strategy q f).eraseText "query").eraseText "filter" = [] := by
    cases q <;> cases f <;> rfl
  rw [Mapping.eraseText_append, Mapping.eraseText_append, herased, List.nil_append,
    Mapping.eraseText_of_absent (getText?_sections (by decide) c postFilter),
    Mapping.eraseText_of_absent (getText?_sections (by decide) c postFilter)]

/-- The parts that are scored are the query and the filter that the body starts with. -/
theorem boost_leading (hscores : c.scores ≠ []) {q f : Option Value} (hq : q ≠ some .null)
    (hf : f ≠ some .null) (strategy : Option String) (postFilter : Option Value) :
    boost (leading strategy q f ++ ofNamed (sections c postFilter)) c.scores c.options =
      ofNamed (sections c postFilter) ++ scored c (leading strategy q f) := by
  have hempty : c.scores.isEmpty = false := by simpa using hscores
  have hpresent : ∀ {name}, name ∉ sectionNames →
      (leading strategy q f ++ ofNamed (sections c postFilter)).present? name =
        (leading strategy q f).getText? name := by
    intro name hname
    have hlook := getText?_append_sections hname (leading strategy q f) c postFilter
    rw [present?_eq_getText?, hlook]
    rw [hlook]
    exact getText?_leading_ne_null hq hf strategy name
  have hput : (ofNamed (sections c postFilter)).putText "query"
      (.map (single "function_score" (.map (ofNamed (scoreParts c (leading strategy q f)))))) =
        ofNamed (sections c postFilter) ++ scored c (leading strategy q f) :=
    Mapping.addSome_of_absent (getText?_sections (by decide) c postFilter) (some _)
  rw [boost, hempty, if_neg Bool.false_ne_true, eraseText_leading, hpresent (by decide),
    hpresent (by decide), ← hput, scoreParts, ← functionScore_eq]
  cases q <;> cases f <;> rfl

/-! ## The whole body -/

/-- What the start of a body is made of; the strategy is needed only to filter a query. -/
structure Started (c : Criteria) (q f : Option Value) (strategy : Option String) : Prop where
  query : c.joinedQuery = .ok q
  filter : c.joinedFilter = .ok f
  strategy : q.isSome = true → f.isSome = true → c.strategyText = .ok strategy

/-- The ways in which a body is put together. -/
inductive Assembled (c : Criteria) : Mapping → Prop
  | simple {q f strategy} (h : isSimple c = true) (hstart : Started c q f strategy) :
      Assembled c (if (leading strategy q f).isEmpty then matchAll else leading strategy q f)
  | plain {q f p strategy} (h : isSimple c = false) (hscores : c.scores = [])
      (hstart : Started c q f strategy) (hp : c.joinedPostFilter = .ok p) :
      Assembled c ((leading strategy q f ++ ofNamed (sections c p)).overlay c.requestOptions)
  | boosted {q f p strategy} (h : isSimple c = false) (hscores : c.scores ≠ [])
      (hstart : Started c q f strategy) (hp : c.joinedPostFilter = .ok p) :
      Assembled c
        ((ofNamed (sections c p) ++ scored c (leading strategy q f)).overlay c.requestOptions)

/-- A joined query counts, and so does a joined filter. -/
theorem ne_null_of_joined {side : JoinSide} {mode : Value} {fragments : List Value}
    {result : Option Value} (h : Join.join side mode fragments = .ok result) :
    result ≠ some .null := by
  rintro rfl
  exact Bool.noConfusion (Join.joins_of_eq_ok h).truthy

theorem joined_ne_null {q f : Option Value} (hq : c.joinedQuery = .ok q)
    (hf : c.joinedFilter = .ok f) : q ≠ some .null ∧ f ≠ some .null := by
  obtain ⟨_, -, hqjoin⟩ := bind_eq_ok.mp hq
  obtain ⟨_, _, _, -, -, -, hfjoin⟩ := Criteria.joinedFilter_eq_ok hf
  exact ⟨ne_null_of_joined hqjoin, ne_null_of_joined hfjoin⟩

theorem assembled_of_body {body : Mapping} (h : Request.body c = .ok body) :
    Assembled c body := by
  obtain ⟨q, hq, h⟩ := bind_eq_ok.mp h
  obtain ⟨f, hf, h⟩ := bind_eq_ok.mp h
  obtain ⟨start, hbase, h⟩ := bind_eq_ok.mp h
  obtain ⟨strategy, rfl, htext⟩ := base_eq_ok hbase
  have hstart : Started c q f strategy := ⟨hq, hf, htext⟩
  cases hsimple : isSimple c with
  | true =>
    rw [hsimple] at h
    obtain rfl := Except.ok.inj h
    exact .simple hsimple hstart
  | false =>
    rw [hsimple] at h
    obtain ⟨p, hp, h⟩ := bind_eq_ok.mp h
    obtain rfl := Except.ok.inj h
    rw [attach_leading]
    by_cases hscores : c.scores = []
    · rw [hscores]
      exact .plain hsimple hscores hstart hp
    · obtain ⟨hqnull, hfnull⟩ := joined_ne_null hq hf
      rw [boost_leading hscores hqnull hfnull]
      exact .boosted hsimple hscores hstart hp

/-- One mapping laid over another. -/
structure LaidOver (base additions body : Mapping) : Prop where
  /-- The keys of the base keep their places, and the others follow in their own order. -/
  keys : Association.keys body = Association.keys base ++
    (Association.keys additions).filter fun k ↦ !(Association.keys base).any (Value.sameKey · k)
  /-- Every addition has its value. -/
  added : ∀ e ∈ additions, body.get? e.1 = some e.2
  /-- Whatever is not among the additions has the value that it had. -/
  kept : ∀ k, additions.get? k = none → body.get? k = base.get? k

theorem laidOver_overlay {additions : Mapping} (h : additions.DistinctKeys) (base : Mapping) :
    LaidOver base additions (base.overlay additions) where
  keys := Association.keys_overlay h base
  added e he := by
    rw [Mapping.get?_overlay h, Mapping.get?_of_mem h he]
    rfl
  kept _ hk := Mapping.get?_overlay_of_eq_none hk base

end SearchCriteria.Request

namespace SearchCriteria.Criteria

open Request
open Mapping (entry single ofNamed)

variable {c : Criteria}

theorem joinedQuery_eq_ok {q : Option Value} (h : c.joinedQuery = .ok q) :
    ∃ fragments, clauseFragments c.queries = .ok fragments ∧
      Join.Joins .queries (c.mode "query_mode") fragments q := by
  obtain ⟨fragments, hfragments, hjoin⟩ := bind_eq_ok.mp h
  exact ⟨fragments, hfragments, Join.joins_of_eq_ok hjoin⟩

theorem joinedPostFilter_eq_ok {p : Option Value} (h : c.joinedPostFilter = .ok p) :
    ∃ fragments, clauseFragments c.postFilters = .ok fragments ∧
      Join.Joins .filters c.postFilterMode fragments p := by
  obtain ⟨fragments, hfragments, hjoin⟩ := bind_eq_ok.mp h
  exact ⟨fragments, hfragments, Join.joins_of_eq_ok hjoin⟩

/-- Nothing is joined of clauses that do not count. -/
theorem exists_fragments {q f : Option Value} (hq : c.joinedQuery = .ok q)
    (hf : c.joinedFilter = .ok f) :
    ∃ queries filters,
      clauseFragments c.queries = .ok queries ∧ clauseFragments c.filters = .ok filters ∧
      (q = none ↔ ∀ v ∈ queries, v.truthy = false) ∧
      (f = none ↔ (∀ v ∈ filters, v.truthy = false) ∧ c.types = []) := by
  obtain ⟨queries, hqueries, hjoins⟩ := joinedQuery_eq_ok hq
  obtain ⟨filters, _, _, hfilters, -, -, -⟩ := joinedFilter_eq_ok hf
  refine ⟨queries, filters, hqueries, hfilters, ?_, ?_⟩
  · rw [hjoins.eq_none_iff, Join.present_eq_nil_iff]
  · rw [joinedFilter_eq_none_iff hf hfilters, Join.present_eq_nil_iff]

theorem exists_postFragments {p : Option Value} (hp : c.joinedPostFilter = .ok p) :
    ∃ postFilters, clauseFragments c.postFilters = .ok postFilters ∧
      (p = none ↔ ∀ v ∈ postFilters, v.truthy = false) := by
  obtain ⟨postFilters, hpost, hjoins⟩ := joinedPostFilter_eq_ok hp
  exact ⟨postFilters, hpost, by rw [hjoins.eq_none_iff, Join.present_eq_nil_iff]⟩

/-- A scored body has no filter of its own. -/
theorem getText?_filter_scored (c : Criteria) (p : Option Value) (start : Mapping) :
    (ofNamed (sections c p) ++ scored c start).getText? "filter" = none := by
  rw [Mapping.getText?_append, getText?_sections (by decide) c p]
  rfl

theorem document_of_compile {doc : Mapping} (h : c.compile = .ok doc) :
    ∃ body, doc = document body ∧ Assembled c body := by
  obtain ⟨body, hbody, hdoc⟩ := bind_eq_ok.mp h
  exact ⟨body, (Except.ok.inj hdoc).symm, assembled_of_body hbody⟩

/--
The compiled body holds exactly the right sections in the right order.  It starts with the joined
query and filter, absent if no clause counts (and no types are given), and with the text of the
strategy if both are there.  A simple criteria holds nothing else, or matches everything.  Any other
one is followed by its sections, each there if its storage holds anything; if there are scoring
functions, the query and the filter move into them behind the sections.  The request options are laid
over that.
-/
theorem compile_sections (hc : Reachable c) {doc : Mapping} (h : c.compile = .ok doc) :
    ∃ queries filters q f strategy body,
      clauseFragments c.queries = .ok queries ∧ clauseFragments c.filters = .ok filters ∧
      c.joinedQuery = .ok q ∧ c.joinedFilter = .ok f ∧
      (q = none ↔ ∀ v ∈ queries, v.truthy = false) ∧
      (f = none ↔ (∀ v ∈ filters, v.truthy = false) ∧ c.types = []) ∧
      (q.isSome = true → f.isSome = true → c.strategyText = .ok strategy) ∧
      doc = [entry "body" (.map body)] ∧
      (isSimple c = true → body =
        if q = none ∧ f = none then [entry "query" (.map [entry "match_all" (.map [])])]
        else leading strategy q f) ∧
      (isSimple c = false → ∃ postFilters p base,
        clauseFragments c.postFilters = .ok postFilters ∧ c.joinedPostFilter = .ok p ∧
        (p = none ↔ ∀ v ∈ postFilters, v.truthy = false) ∧
        (c.scores = [] → base = leading strategy q f ++ ofNamed (sections c p)) ∧
        (c.scores ≠ [] → base.getText? "filter" = none ∧ base =
          ofNamed (sections c p) ++ [entry "query" (.map [entry "function_score"
            (.map (ofNamed (scoreParts c (leading strategy q f))))])]) ∧
        LaidOver base c.requestOptions body) := by
  obtain ⟨body, rfl, hbody⟩ := document_of_compile h
  have hoptions := hc.settled.requestOptions
  cases hbody with
  | @simple q f strategy hsimple hstart =>
    obtain ⟨hq, hf, htext⟩ := hstart
    obtain ⟨queries, filters, hqueries, hfilters, hqnone, hfnone⟩ := exists_fragments hq hf
    refine ⟨queries, filters, q, f, strategy, _, hqueries, hfilters, hq, hf, hqnone, hfnone, htext,
      rfl, fun _ ↦ ?_, fun hfull ↦ Bool.noConfusion (hsimple.symm.trans hfull)⟩
    simp only [leading_isEmpty]
    rfl
  | @plain q f p strategy hfull hscores hstart hp =>
    obtain ⟨hq, hf, htext⟩ := hstart
    obtain ⟨queries, filters, hqueries, hfilters, hqnone, hfnone⟩ := exists_fragments hq hf
    obtain ⟨postFilters, hpost, hpnone⟩ := exists_postFragments hp
    refine ⟨queries, filters, q, f, strategy, _, hqueries, hfilters, hq, hf, hqnone, hfnone, htext,
      rfl, fun hsimple ↦ Bool.noConfusion (hfull.symm.trans hsimple), fun _ ↦ ?_⟩
    exact ⟨postFilters, p, _, hpost, hp, hpnone, fun _ ↦ rfl, fun hne ↦ absurd hscores hne,
      laidOver_overlay hoptions _⟩
  | @boosted q f p strategy hfull hscores hstart hp =>
    obtain ⟨hq, hf, htext⟩ := hstart
    obtain ⟨queries, filters, hqueries, hfilters, hqnone, hfnone⟩ := exists_fragments hq hf
    obtain ⟨postFilters, hpost, hpnone⟩ := exists_postFragments hp
    refine ⟨queries, filters, q, f, strategy, _, hqueries, hfilters, hq, hf, hqnone, hfnone, htext,
      rfl, fun hsimple ↦ Bool.noConfusion (hfull.symm.trans hsimple), fun _ ↦ ?_⟩
    exact ⟨postFilters, p, _, hpost, hp, hpnone, fun hnil ↦ absurd hnil hscores,
      fun _ ↦ ⟨getText?_filter_scored c p _, rfl⟩, laidOver_overlay hoptions _⟩

/-- The facets keep their place under the request options, and the scored query follows them. -/
theorem compile_sections_of_scores :
    let c := (start {} []).replay
      [{ storage := .queries, patch := .map [entry "match" (.map [entry "title" (.text "a")])] },
       { storage := .types, patch := .text "post" },
       { storage := .scores, patch := .map [entry "weight" (.int 2)] },
       { storage := .facets, patch := .map [entry "tags" (.map [])] },
       { storage := .requestOptions,
         patch := .map [entry "size" (.int 5), entry "facets" (.bool true)] }]
    ∃ base body, c.compile = .ok [entry "body" (.map body)] ∧
      Association.keys body = [.text "facets", .text "query", .text "size"] ∧
      base.getText? "filter" = none ∧ LaidOver base c.requestOptions body := by
  intro c
  have hcompile : c.compile = .ok [entry "body" (.map
      [entry "facets" (.bool true),
       entry "query" (.map [entry "function_score" (.map
         [entry "functions" (.list [.map [entry "weight" (.int 2)]]),
          entry "query" (.map [entry "filtered" (.map
            [entry "query" (.map [entry "match" (.map [entry "title" (.text "a")])]),
             entry "filter" (.map [entry "type" (.map [entry "value" (.text "post")])])])])])]),
       entry "size" (.int 5)])] := rfl
  obtain ⟨_, _, q, f, _, body, -, -, -, -, -, -, -, hdoc, -, hfull⟩ :=
    compile_sections ((reachable_start {}).replay _) hcompile
  obtain ⟨_, _, base, -, -, -, -, hscored, hover⟩ := hfull rfl
  have hscores : c.scores ≠ [] := List.cons_ne_nil _ _
  refine ⟨base, body, hcompile.trans (congrArg Except.ok hdoc), ?_, (hscored hscores).1, hover⟩
  cases hdoc
  rfl

end SearchCriteria.Criteria
