import SearchCriteria.Proofs.Request.Sections

/-!
# Groups of nodes and joined filters

Filters that are nodes can be joined by their criteria or by a node around them, and both come to
the same.  Joins and groups look at the fragments that count and at nothing else, and what comes of
a group counts unless nothing in it does, so joining the filters before the types are added makes a
group inside a group.
-/

namespace SearchCriteria

open Mapping (entry ofNamed)

/-! ## Fragments as parts of a request -/

/-- What a fragment is in a request: an empty one is no part of it. -/
def Fragment.part (fragment : Mapping) : Option Value :=
  if fragment.isEmpty then none else some (.map fragment)

/-- What the fragment of a node is in a request. -/
def Expression.part (e : Expression) : Except Fault (Option Value) := do
  return Fragment.part (← e.render)

namespace Fragment

theorem part_of_ne_nil {fragment : Mapping} (h : fragment ≠ []) :
    part fragment = some (.map fragment) := by
  rw [part, if_neg (by simpa using h)]

/-- A lone fragment needs no group. -/
theorem group_singleton (mode : JoinMode) (fragment : Mapping) :
    group mode [fragment] = fragment := by
  cases fragment <;> rfl

end Fragment

namespace Join

variable {side : JoinSide} {mode : Value}

/-- A join depends on the fragments that count. -/
theorem join_congr {fragments others : List Value} (h : present fragments = present others) :
    join side mode fragments = join side mode others := by
  rw [join, join, h]

theorem present_fragments (fragments : List Mapping) :
    present (fragments.map .map) = (fragments.filter (!·.isEmpty)).map .map := by
  rw [present, List.filter_map]
  rfl

theorem present_part (fragment : Mapping) :
    present (Fragment.part fragment).toList = present [.map fragment] := by
  cases fragment <;> rfl

/-- Under the mode of a group, filters join to the group of them. -/
theorem join_group {mode : JoinMode} (hmode : mode = .and ∨ mode = .or)
    (fragments : List Mapping) :
    join .filters (.text mode.name) (fragments.map .map) =
      .ok (Fragment.part (Fragment.group mode fragments)) := by
  have hgroup (clauses : List Value) :
      wrap .filters (.text mode.name) clauses = .ok (groupOf .filters mode.name clauses) := by
    rcases hmode with rfl | rfl <;> rfl
  have hlone : (Value.text mode.name).isText JoinMode.mustNot.name = false := by
    rcases hmode with rfl | rfl <;> rfl
  have hcounts : ∀ f ∈ fragments.filter (!·.isEmpty), f ≠ [] := by simp
  rw [join, present_fragments, hlone, Fragment.group]
  generalize fragments.filter (!·.isEmpty) = counting at hcounts
  match counting with
  | [] => rfl
  | [f] =>
    have hf : f ≠ [] := hcounts f (List.mem_singleton_self f)
    exact congrArg Except.ok (Fragment.part_of_ne_nil hf).symm
  | f :: g :: rest =>
    change (wrap .filters (.text mode.name) _).map _ = _
    rw [hgroup]
    rfl

end Join

/-! ## Clauses that are nodes -/

theorem clauseFragments_nodes (nodes : List Expression) :
    clauseFragments (nodes.map .node) = do return (← renderNodes nodes).map .map := by
  induction nodes with
  | nil => rfl
  | cons e nodes ih =>
    rw [List.map_cons, clauseFragments, List.mapM_cons]
    rw [clauseFragments] at ih
    rw [ih, renderNodes]
    change ((e.render >>= fun f ↦ pure (Value.map f)) >>= _) = _
    cases e.render with
    | error => rfl
    | ok f => cases renderNodes nodes <;> rfl

theorem renderNodes_raws (fragments : List Mapping) :
    renderNodes (fragments.map .raw) = .ok fragments := by
  induction fragments with
  | nil => rfl
  | cons f fragments ih => rw [List.map_cons, renderNodes, ih]; rfl

namespace Criteria

variable {c : Criteria} {nodes : List Expression}

/-- The node that stands for a list of types. -/
def typesNode (names : List String) : Expression :=
  .or (names.map fun name ↦ .raw (typeFragment name))

theorem render_typesNode (names : List String) :
    (typesNode names).render = .ok (Fragment.anyOf (names.map typeFragment)) := by
  have hraws := renderNodes_raws (names.map typeFragment)
  rw [List.map_map] at hraws
  rw [typesNode, Expression.render]
  change (renderNodes (names.map (Expression.raw ∘ typeFragment)) >>= _) = _
  rw [hraws]
  rfl

theorem joinedTypes_eq_part (c : Criteria) : c.joinedTypes = (typesNode c.types).part := by
  have hgroup := Join.join_group (.inr rfl) (c.types.map typeFragment)
  rw [List.map_map] at hgroup
  rw [Expression.part, render_typesNode]
  exact hgroup

/-! ## Joined filters -/

/-- The types and parts in which the same fragments count come to a group of all of them. -/
theorem join_types {parts : List Value} {fragments : List Mapping}
    (h : Join.present parts = Join.present (fragments.map .map)) (c : Criteria) :
    (do
      let types ← c.joinedTypes
      Join.join .filters (.text JoinMode.and.name) (types.toList ++ parts)) =
      .ok (Fragment.part
        (Fragment.allOf (Fragment.anyOf (c.types.map typeFragment) :: fragments))) := by
  have hpresent (types : Mapping) : Join.present ((Fragment.part types).toList ++ parts) =
      Join.present ((types :: fragments).map .map) := by
    rw [Join.present_append, Join.present_part, h, ← Join.present_append]
    rfl
  rw [joinedTypes_eq_part, Expression.part, render_typesNode]
  exact (Join.join_congr (hpresent _)).trans (Join.join_group (.inl rfl) _)

theorem joinedFilter_of_and (hmode : c.mode "filter_mode" = .text "and")
    (h : c.filters = nodes.map .node) :
    c.joinedFilter = (Expression.and (typesNode c.types :: nodes)).part := by
  rw [joinedFilter, h, clauseFragments_nodes, hmode, Expression.part, Expression.render,
    renderNodes, render_typesNode]
  cases renderNodes nodes with
  | error => rfl
  | ok fragments => exact join_types rfl c

theorem joinedFilter_of_or (hmode : c.mode "filter_mode" = .text "or")
    (h : c.filters = nodes.map .node) :
    c.joinedFilter = (Expression.and [typesNode c.types, .or nodes]).part := by
  rw [joinedFilter, h, clauseFragments_nodes, hmode, Expression.part, Expression.render,
    renderNodes, render_typesNode, renderNodes, Expression.render]
  cases renderNodes nodes with
  | error => rfl
  | ok fragments =>
    have hjoin := Join.join_group (.inr rfl) fragments
    have hparts : filterParts (.text "or") (fragments.map .map) =
        .ok (Fragment.part (Fragment.anyOf fragments)).toList := by
      change (Join.join .filters (.text JoinMode.or.name) _ >>= _) = _
      rw [hjoin]
      rfl
    have hpresent : Join.present (Fragment.part (Fragment.anyOf fragments)).toList =
        Join.present ([Fragment.anyOf fragments].map .map) := Join.present_part _
    change (filterParts (.text "or") (fragments.map .map) >>= _) = _
    rw [hparts]
    exact join_types hpresent c

/-- Without types there is nothing in their place. -/
theorem part_and_of_no_types (nodes : List Expression) :
    (Expression.and (typesNode [] :: nodes)).part = (Expression.and nodes).part := by
  rw [Expression.part, Expression.part, Expression.render, Expression.render, renderNodes,
    render_typesNode]
  cases renderNodes nodes <;> rfl

/-- A node alone in a group is no other part than it is by itself. -/
theorem part_and_singleton (e : Expression) : (Expression.and [e]).part = e.part := by
  rw [Expression.part, Expression.part, Expression.render, renderNodes, renderNodes]
  cases e.render with
  | error => rfl
  | ok f => exact congrArg (fun g ↦ Except.ok (Fragment.part g)) (Fragment.group_singleton .and f)

/-- The node that the filters of a criteria stand for, under a mode that is one of a group. -/
inductive FilterNode (c : Criteria) (nodes : List Expression) : Expression → Prop
  | anyOf (hmode : c.mode "filter_mode" = .text "or") (htypes : c.types = []) :
      FilterNode c nodes (.or nodes)
  | allOf (hmode : c.mode "filter_mode" = .text "and") (htypes : c.types = []) :
      FilterNode c nodes (.and nodes)
  | typed (hmode : c.mode "filter_mode" = .text "and") (htypes : c.types ≠ []) :
      FilterNode c nodes (.and (typesNode c.types :: nodes))
  | typedAnyOf (hmode : c.mode "filter_mode" = .text "or") (htypes : c.types ≠ []) :
      FilterNode c nodes (.and [typesNode c.types, .or nodes])

theorem FilterNode.joinedFilter_eq {e : Expression} (he : FilterNode c nodes e)
    (h : c.filters = nodes.map .node) : c.joinedFilter = e.part := by
  cases he with
  | anyOf hmode htypes =>
    rw [joinedFilter_of_or hmode h, htypes, part_and_of_no_types, part_and_singleton]
  | allOf hmode htypes => rw [joinedFilter_of_and hmode h, htypes, part_and_of_no_types]
  | typed hmode => exact joinedFilter_of_and hmode h
  | typedAnyOf hmode => exact joinedFilter_of_or hmode h

/-- The node that the post filters of a criteria stand for. -/
inductive PostFilterNode (c : Criteria) (nodes : List Expression) : Expression → Prop
  | anyOf (hmode : c.postFilterMode = .text "or") : PostFilterNode c nodes (.or nodes)
  | allOf (hmode : c.postFilterMode = .text "and") : PostFilterNode c nodes (.and nodes)

theorem PostFilterNode.joinedPostFilter_eq {e : Expression} (he : PostFilterNode c nodes e)
    (h : c.postFilters = nodes.map .node) : c.joinedPostFilter = e.part := by
  rw [joinedPostFilter, h, clauseFragments_nodes]
  cases he with
  | anyOf hmode =>
    rw [hmode, Expression.part, Expression.render]
    cases renderNodes nodes with
    | error => rfl
    | ok fragments => exact Join.join_group (.inr rfl) fragments
  | allOf hmode =>
    rw [hmode, Expression.part, Expression.render]
    cases renderNodes nodes with
    | error => rfl
    | ok fragments => exact Join.join_group (.inl rfl) fragments

end Criteria

/-! ## Documents -/

namespace Request

variable {c : Criteria} {q f p : Option Value} {strategy : Option String}

theorem document_injective : Function.Injective document := fun _ _ h ↦ by
  simpa [document, Mapping.single, entry] using h

/-- The body that is put together of a joined query, filter and post filter. -/
def assemble (c : Criteria) (strategy : Option String) (q f p : Option Value) : Mapping :=
  let start := leading strategy q f
  if isSimple c then if start.isEmpty then matchAll else start
  else
    let parts := if c.scores.isEmpty then start ++ ofNamed (sections c p)
      else ofNamed (sections c p) ++ scored c start
    parts.overlay c.requestOptions

/-- Every body is assembled of what is joined; a simple one has no post filter. -/
theorem body_eq_assemble {body : Mapping} (h : Request.body c = .ok body) :
    ∃ q f p strategy, c.joinedQuery = .ok q ∧ c.joinedFilter = .ok f ∧
      (isSimple c = false → c.joinedPostFilter = .ok p) ∧ body = assemble c strategy q f p := by
  cases assembled_of_body h with
  | @simple q f strategy hsimple hstart =>
    refine ⟨q, f, none, strategy, hstart.query, hstart.filter, fun hplain ↦ ?_, ?_⟩
    · exact Bool.noConfusion (hsimple.symm.trans hplain)
    · rw [assemble, hsimple, if_pos rfl]
  | @plain q f p strategy hsimple hscores hstart hp =>
    refine ⟨q, f, p, strategy, hstart.query, hstart.filter, fun _ ↦ hp, ?_⟩
    simp [assemble, hsimple, hscores]
  | @boosted q f p strategy hsimple hscores hstart hp =>
    refine ⟨q, f, p, strategy, hstart.query, hstart.filter, fun _ ↦ hp, ?_⟩
    simp [assemble, hsimple, hscores]

/-- A query with a filter folded into it is another query. -/
theorem filtered_ne (q f : Value) (strategy : Option String) :
    Value.map (filtered q f strategy) ≠ q := by
  intro h
  have hsize := congrArg sizeOf h
  simp only [filtered, Mapping.single, entry, List.cons_append, Value.map.sizeOf_spec,
    List.cons.sizeOf_spec, Prod.mk.sizeOf_spec] at hsize
  omega

/-- A filter shows in what a body starts with, under the name of the query or under its own. -/
theorem leading_ne (strategy other : Option String) (q : Option Value) (f : Value) :
    (leading strategy q (some f)).getText? "query" ≠ (leading other q none).getText? "query" ∨
      (leading strategy q (some f)).getText? "filter" ≠
        (leading other q none).getText? "filter" := by
  cases q with
  | none => exact .inr nofun
  | some q => exact .inl fun h ↦ filtered_ne q f strategy (Option.some.inj h)

theorem getText?_scoreParts {name : String} (h : name ∈ ["query", "filter"]) (c : Criteria)
    (start : Mapping) : (ofNamed (scoreParts c start)).getText? name = start.getText? name := by
  have hnames : ((scoreParts c start).map Prod.fst).Nodup := by
    change ["functions", "boost_mode", "score_mode", "query", "filter"].Nodup
    decide
  simp only [List.mem_cons, List.not_mem_nil, or_false] at h
  rcases h with rfl | rfl
  · exact Mapping.getText?_ofNamed hnames (s := ("query", start.getText? "query"))
      (by simp [scoreParts])
  · exact Mapping.getText?_ofNamed hnames (s := ("filter", start.getText? "filter"))
      (by simp [scoreParts])

/-- The sections leave the scored query where it can be found. -/
theorem getText?_scored (c : Criteria) (p : Option Value) (start : Mapping) :
    (ofNamed (sections c p) ++ scored c start).getText? "query" =
      some (.map (Mapping.single "function_score" (.map (ofNamed (scoreParts c start))))) := by
  rw [Mapping.getText?_append, getText?_sections (by decide), Option.none_or]
  exact Mapping.getText?_entry_self "query" _ []

/-- A filter makes a difference to the body, unless the request options write over its place. -/
theorem assemble_ne (hquery : c.requestOptions.getText? "query" = none)
    (hfilter : c.requestOptions.getText? "filter" = none) (strategy other : Option String)
    (q p : Option Value) (f : Value) :
    assemble c strategy q (some f) p ≠ assemble c other q none p := by
  intro h
  unfold assemble at h
  dsimp only at h
  split at h
  · cases q with
    | none => simp [leading, matchAll, Mapping.single, entry] at h
    | some q =>
      have hq : Value.map (filtered q f strategy) = q := by simpa [leading, entry] using h
      exact filtered_ne q f strategy hq
  have hlook : ∀ name ∈ ["query", "filter"],
      (leading strategy q (some f)).getText? name = (leading other q none).getText? name := by
    split at h
    · intro name hname
      have hsections : name ∉ sectionNames := by
        rintro hmem
        simp only [List.mem_cons, List.not_mem_nil, or_false] at hname
        rcases hname with rfl | rfl <;> exact absurd hmem (by decide)
      have hoptions : c.requestOptions.getText? name = none := by
        simp only [List.mem_cons, List.not_mem_nil, or_false] at hname
        rcases hname with rfl | rfl
        · exact hquery
        · exact hfilter
      have hname := congrArg (Mapping.getText? · name) h
      simpa only [Mapping.getText?_overlay_of_eq_none hoptions,
        getText?_append_sections hsections] using hname
    · intro name hname
      have hscored := congrArg (Mapping.getText? · "query") h
      simp only [Mapping.getText?_overlay_of_eq_none hquery, getText?_scored, Mapping.single,
        entry, Option.some.injEq, Value.map.injEq, List.cons.injEq, Prod.mk.injEq, true_and,
        and_true] at hscored
      rw [← getText?_scoreParts hname c, hscored, getText?_scoreParts hname c]
  rcases leading_ne strategy other q f with hne | hne
  · exact hne (hlook "query" (by decide))
  · exact hne (hlook "filter" (by decide))

/-- Every section has its place in a body, unless the request options write over it. -/
theorem getText?_assemble_section (hsimple : isSimple c = false) {name : String}
    {content : Option Value} (h : (name, content) ∈ sections c p)
    (hoptions : c.requestOptions.getText? name = none) (strategy : Option String)
    (q f : Option Value) : (assemble c strategy q f p).getText? name = content := by
  have hsections : (ofNamed (sections c p)).getText? name = content :=
    Mapping.getText?_ofNamed (by rw [map_fst_sections]; decide) h
  have hname : name ∈ sectionNames := map_fst_sections c p ▸ List.mem_map_of_mem h
  have hquery : "query" ≠ name := by
    rintro rfl
    exact absurd hname (by decide)
  have hfilter : "filter" ≠ name := by
    rintro rfl
    exact absurd hname (by decide)
  have hscored (start : Mapping) : (scored c start).getText? name = none := by
    rw [scored, Mapping.single, Mapping.getText?_cons_entry, if_neg hquery, Mapping.getText?_nil]
  unfold assemble
  dsimp only
  rw [hsimple, if_neg Bool.false_ne_true, Mapping.getText?_overlay_of_eq_none hoptions]
  split
  · rw [Mapping.getText?_append, hsections, getText?_leading hquery hfilter, Option.none_or]
  · rw [Mapping.getText?_append, hsections, hscored, Option.or_none]

/-- A simple body has no sections. -/
theorem getText?_assemble_of_simple (hsimple : isSimple c = true) {name : String}
    (hquery : "query" ≠ name) (hfilter : "filter" ≠ name) (strategy : Option String)
    (q f p : Option Value) : (assemble c strategy q f p).getText? name = none := by
  unfold assemble
  dsimp only
  rw [hsimple, if_pos rfl]
  split
  · rw [matchAll, Mapping.single, Mapping.getText?_cons_entry, if_neg hquery, Mapping.getText?_nil]
  · exact getText?_leading hquery hfilter strategy q f

/-- With scoring functions the query of a body is the scored one. -/
theorem getText?_assemble_query (hsimple : isSimple c = false) (hscores : c.scores ≠ [])
    (hoptions : c.requestOptions.getText? "query" = none) (strategy : Option String)
    (q f p : Option Value) : (assemble c strategy q f p).getText? "query" =
      some (.map [entry "function_score"
        (.map (ofNamed (scoreParts c (leading strategy q f))))]) := by
  unfold assemble
  dsimp only
  rw [hsimple, if_neg Bool.false_ne_true, if_neg (by simpa using hscores),
    Mapping.getText?_overlay_of_eq_none hoptions, getText?_scored]
  rfl

/-- The functions of a scored query are what the criteria scores by. -/
theorem getText?_scoreParts_functions (c : Criteria) (start : Mapping) :
    (ofNamed (scoreParts c start)).getText? "functions" = some (.list c.scores) := rfl

end Request

namespace Criteria

open Request

variable {c : Criteria} {nodes : List Expression} {body : Mapping}

/-- A document is the body that was made for it. -/
theorem body_of_compile (h : c.compile = .ok (document body)) : Request.body c = .ok body := by
  obtain ⟨made, hmade, hdoc⟩ := bind_eq_ok.mp h
  rw [hmade, document_injective (Except.ok.inj hdoc)]

/-- The sections of a document. -/
theorem getText?_section_of_compile (h : c.compile = .ok (document body))
    (hsimple : isSimple c = false) :
    ∃ p, c.joinedPostFilter = .ok p ∧ ∀ name content, (name, content) ∈ sections c p →
      c.requestOptions.getText? name = none → body.getText? name = content := by
  obtain ⟨q, f, p, strategy, -, -, hp, rfl⟩ := body_eq_assemble (body_of_compile h)
  exact ⟨p, hp hsimple, fun name content hsection hoptions ↦
    getText?_assemble_section hsimple hsection hoptions strategy q f⟩

theorem getText?_of_compile_of_simple (h : c.compile = .ok (document body))
    (hsimple : isSimple c = true) {name : String} (hquery : "query" ≠ name)
    (hfilter : "filter" ≠ name) : body.getText? name = none := by
  obtain ⟨q, f, p, strategy, -, -, -, rfl⟩ := body_eq_assemble (body_of_compile h)
  exact getText?_assemble_of_simple hsimple hquery hfilter strategy q f p

/-- The scored query of a document. -/
theorem getText?_query_of_compile (h : c.compile = .ok (document body))
    (hsimple : isSimple c = false) (hscores : c.scores ≠ [])
    (hoptions : c.requestOptions.getText? "query" = none) :
    ∃ parts : Mapping, body.getText? "query" = some (.map [entry "function_score" (.map parts)]) ∧
      parts.getText? "functions" = some (.list c.scores) := by
  obtain ⟨q, f, p, strategy, -, -, -, rfl⟩ := body_eq_assemble (body_of_compile h)
  exact ⟨_, getText?_assemble_query hsimple hscores hoptions strategy q f p,
    getText?_scoreParts_functions c _⟩

/-- The criteria with nothing in its filters and its types. -/
def withoutFilters (c : Criteria) : Criteria := { c with filters := [], types := [] }

theorem FilterNode.joinedFilter_withoutFilters {e : Expression} (he : FilterNode c nodes e) :
    c.withoutFilters.joinedFilter = .ok none := by
  have hempty : c.withoutFilters.filters = [].map .node := rfl
  cases he with
  | anyOf hmode | typedAnyOf hmode =>
    have hmode : c.withoutFilters.mode "filter_mode" = .text "or" := hmode
    rw [joinedFilter_of_or hmode hempty]
    rfl
  | allOf hmode | typed hmode =>
    have hmode : c.withoutFilters.mode "filter_mode" = .text "and" := hmode
    rw [joinedFilter_of_and hmode hempty]
    rfl

theorem FilterNode.compile_withoutFilters {e : Expression} (he : FilterNode c nodes e)
    (h : c.filters = nodes.map .node) (hrender : e.render = .ok []) :
    c.compile = c.withoutFilters.compile := by
  have hfilter : c.joinedFilter = .ok none := by
    rw [he.joinedFilter_eq h, Expression.part, hrender]
    rfl
  have hbody : body c = body c.withoutFilters := by
    unfold body
    rw [hfilter, he.joinedFilter_withoutFilters]
    rfl
  rw [compile, compile, hbody]

/-- A document is assembled of the fragment of the node that the filters stand for. -/
theorem FilterNode.assembled {e : Expression} (he : FilterNode c nodes e)
    (h : c.filters = nodes.map .node) {doc : Mapping} (hdoc : c.compile = .ok doc) :
    ∃ fragment q p strategy, e.render = .ok fragment ∧ c.joinedQuery = .ok q ∧
      (isSimple c = false → c.joinedPostFilter = .ok p) ∧
      doc = document (assemble c strategy q (Fragment.part fragment) p) := by
  obtain ⟨body, hbody, hdoc⟩ := bind_eq_ok.mp hdoc
  obtain ⟨q, f, p, strategy, hq, hf, hp, rfl⟩ := body_eq_assemble hbody
  rw [he.joinedFilter_eq h] at hf
  obtain ⟨fragment, hfragment, hf⟩ := bind_eq_ok.mp hf
  obtain rfl := Except.ok.inj hf
  exact ⟨fragment, q, p, strategy, hfragment, hq, hp, (Except.ok.inj hdoc).symm⟩

/-- The post filter of a simple criteria does not matter. -/
theorem assemble_of_simple (hsimple : isSimple c = true) (strategy : Option String)
    (q f p other : Option Value) : assemble c strategy q f p = assemble c strategy q f other := by
  rw [assemble, assemble, hsimple]
  rfl

/-- Without a filter part the document is the one without filters and types, and only then. -/
theorem FilterNode.compile_withoutFilters_iff {e : Expression} (he : FilterNode c nodes e)
    (h : c.filters = nodes.map .node) (hquery : c.requestOptions.getText? "query" = none)
    (hfilter : c.requestOptions.getText? "filter" = none) {doc : Mapping}
    (hdoc : c.compile = .ok doc) :
    c.withoutFilters.compile = .ok doc ↔ e.render = .ok [] := by
  constructor
  · intro hother
    obtain ⟨fragment, q, p, strategy, hrender, hq, hp, rfl⟩ := he.assembled h hdoc
    obtain ⟨body, hbody, hother⟩ := bind_eq_ok.mp hother
    obtain ⟨q', f', p', strategy', hq', hf', hp', rfl⟩ := body_eq_assemble hbody
    obtain rfl : q' = q := Except.ok.inj (hq'.symm.trans hq)
    obtain rfl : f' = none := Except.ok.inj (hf'.symm.trans he.joinedFilter_withoutFilters)
    have hbodies : assemble c strategy q' (Fragment.part fragment) p =
        assemble c strategy' q' none p' := document_injective (Except.ok.inj hother).symm
    have hpost : assemble c strategy' q' none p' = assemble c strategy' q' none p := by
      cases hsimple : isSimple c with
      | true => exact assemble_of_simple hsimple _ _ _ _ _
      | false =>
        obtain rfl : p' = p := Except.ok.inj ((hp' hsimple).symm.trans (hp hsimple))
        rfl
    rw [hpost] at hbodies
    by_cases hfragment : fragment = []
    · rw [hrender, hfragment]
    · rw [Fragment.part_of_ne_nil hfragment] at hbodies
      exact absurd hbodies (assemble_ne hquery hfilter _ _ _ _ _)
  · intro hrender
    rw [← he.compile_withoutFilters h hrender, hdoc]

/-- A document that is not simple has the fragment of that node as its post filter. -/
theorem PostFilterNode.getText?_document {e : Expression} (he : PostFilterNode c nodes e)
    (h : c.postFilters = nodes.map .node) (hsimple : isSimple c = false)
    (hoptions : c.requestOptions.getText? "post_filter" = none)
    (hdoc : c.compile = .ok (document body)) :
    ∃ fragment, e.render = .ok fragment ∧ body.getText? "post_filter" = Fragment.part fragment := by
  obtain ⟨p, hp, hsections⟩ := getText?_section_of_compile hdoc hsimple
  rw [he.joinedPostFilter_eq h] at hp
  obtain ⟨fragment, hfragment, hp⟩ := bind_eq_ok.mp hp
  obtain rfl := Except.ok.inj hp
  exact ⟨fragment, hfragment, hsections "post_filter" _ List.mem_cons_self hoptions⟩

/--
Joining filters that are nodes and rendering the node around them come to the same.  The filters
join to the rendering of that node, types and all, and the document holds it as its filter, be it
beside the query, folded into it or scored; an empty rendering is no filter.  Post filters join to
the rendering of theirs.  Only the request options can hide in the document whether there is a
filter, by writing over its place, and a simple document has no post filter.
-/
theorem joined_nodes (c : Criteria) (nodes : List Expression) :
    (c.filters = nodes.map .node → ∀ e, FilterNode c nodes e →
      c.joinedFilter = e.part ∧
      ∀ doc, c.compile = .ok doc →
        (∃ fragment q p strategy, e.render = .ok fragment ∧ c.joinedQuery = .ok q ∧
          (isSimple c = false → c.joinedPostFilter = .ok p) ∧
          doc = document (assemble c strategy q (Fragment.part fragment) p)) ∧
        (c.requestOptions.getText? "query" = none → c.requestOptions.getText? "filter" = none →
          (c.withoutFilters.compile = .ok doc ↔ e.render = .ok []))) ∧
    (c.postFilters = nodes.map .node → ∀ e, PostFilterNode c nodes e →
      c.joinedPostFilter = e.part ∧
      (isSimple c = false → c.requestOptions.getText? "post_filter" = none →
        ∀ body, c.compile = .ok (document body) → ∃ fragment, e.render = .ok fragment ∧
          body.getText? "post_filter" = Fragment.part fragment)) := by
  constructor
  · intro hfilters e he
    refine ⟨he.joinedFilter_eq hfilters, fun doc hdoc ↦ ⟨he.assembled hfilters hdoc, ?_⟩⟩
    exact fun hquery hfilter ↦ he.compile_withoutFilters_iff hfilters hquery hfilter hdoc
  · intro hpostFilters e he
    refine ⟨he.joinedPostFilter_eq hpostFilters, fun hsimple hoptions body hdoc ↦ ?_⟩
    exact he.getText?_document hpostFilters hsimple hoptions hdoc

/-- Types, an empty clause, and a group inside a group; the lone post filter that counts is bare. -/
theorem joined_nodes_of_typed_groups :
    let a : Expression := .term "a" (.int 1)
    let b : Expression := .present "b"
    let filters : List Expression := [.raw [], .or [a, .and [.raw [], b]], .not a]
    let posts : List Expression := [.or [.raw []], b]
    let c := (start { postFilterMode := some (.text "or") } []).replay
      [{ storage := .types, patch := .list [.text "post", .text "page"] },
       { storage := .filters, patch := .list (filters.map .node) },
       { storage := .postFilters, patch := .list (posts.map .node) },
       { storage := .queries, patch := .node b }]
    let types : List Expression := [.raw (typeFragment "post"), .raw (typeFragment "page")]
    let e : Expression := .and (.or types :: filters)
    ∃ doc, c.compile = .ok doc ∧ c.filters = filters.map .node ∧ FilterNode c filters e ∧
      c.postFilters = posts.map .node ∧ PostFilterNode c posts (.or posts) ∧
      c.joinedFilter = e.part ∧ c.joinedPostFilter = .ok (some (.map (Fragment.present "b"))) ∧
      c.withoutFilters.compile ≠ .ok doc := by
  intro a b filters posts c types e
  have he : FilterNode c filters e := .typed rfl (List.cons_ne_nil _ _)
  have hposts : PostFilterNode c posts (.or posts) := .anyOf rfl
  obtain ⟨hfilter, hdocument⟩ := (joined_nodes c filters).1 rfl e he
  obtain ⟨hpost, -⟩ := (joined_nodes c posts).2 rfl (.or posts) hposts
  have hcompiles : ∃ doc, c.compile = .ok doc := ⟨_, rfl⟩
  obtain ⟨doc, hdoc⟩ := hcompiles
  obtain ⟨-, hsame⟩ := hdocument doc hdoc
  refine ⟨doc, hdoc, rfl, he, rfl, hposts, hfilter, hpost, fun h ↦ ?_⟩
  have hempty := (hsame rfl rfl).mp h
  exact absurd hempty nofun

/--
Two documents do not show what was joined: a simple one has no post filter, and request options can
write over the query that the filter is folded into.
-/
theorem joined_nodes_out_of_sight :
    let a : Expression := .term "a" (.int 1)
    let fragment : Mapping := [entry "term" (.map [entry "a" (.int 1)])]
    let simple := (start {} []).replay
      [{ storage := .postFilters, patch := .list [.node a] },
       { storage := .options, patch := .map [entry "simple" (.bool true)] }]
    let overlaid := (start {} []).replay
      [{ storage := .queries, patch := .node (.present "b") },
       { storage := .filters, patch := .list [.node a] },
       { storage := .requestOptions, patch := .map [entry "query" (.map [])] }]
    (Expression.and [a]).render = .ok fragment ∧ fragment ≠ [] ∧
      (Reachable simple ∧ simple.postFilters = [a].map .node ∧
        PostFilterNode simple [a] (.and [a]) ∧
        simple.compile =
          .ok (document [entry "query" (.map [entry "match_all" (.map [])])])) ∧
      Reachable overlaid ∧ overlaid.filters = [a].map .node ∧ FilterNode overlaid [a] (.and [a]) ∧
        overlaid.compile = .ok (document [entry "query" (.map [])]) ∧
        overlaid.withoutFilters.compile = overlaid.compile := by
  intro a fragment simple overlaid
  have hsimple : Reachable simple := (reachable_start {}).replay _
  have hoverlaid : Reachable overlaid := (reachable_start {}).replay _
  exact ⟨rfl, List.cons_ne_nil _ _, ⟨hsimple, rfl, .allOf rfl, rfl⟩, hoverlaid, rfl, .allOf rfl rfl,
    rfl, rfl⟩

end Criteria

end SearchCriteria
