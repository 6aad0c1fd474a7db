import SearchCriteria.Proofs.Expression.Agreement
import SearchCriteria.Proofs.Request.Sections

/-!
# Requests of criteria that are alike

Every step of compiling takes what is alike to what is alike, up to the whole document.  Besides the
scripts of its clauses, `Comparable` names the two places where a step looks at more than equality
does: whether the mode that joins several queries is written as a fraction, and how the strategy is
written that a query is filtered by.
-/

namespace SearchCriteria

open Mapping (entry single ofNamed alike_single entryAlike_entry)

/-! ## Clauses -/

/-- Equality tells how the clause is rendered. -/
def Value.ExactClause : Value → Prop
  | .node e => e.WithParams (Value.ParamsNamed Value.ExactName)
  | _ => True

/-- Traversals of related items have related results, if both end well. -/
theorem forall₂_mapM {α β ε : Type} {r : α → α → Prop} {s : β → β → Prop} {f : α → Except ε β}
    (hstep : ∀ {x y a b}, r x y → f x = .ok a → f y = .ok b → s a b) {xs ys : List α}
    {as bs : List β} (h : List.Forall₂ r xs ys) (has : xs.mapM f = .ok as)
    (hbs : ys.mapM f = .ok bs) : List.Forall₂ s as bs := by
  induction h generalizing as bs with
  | nil =>
    obtain rfl := Except.ok.inj has
    obtain rfl := Except.ok.inj hbs
    exact .nil
  | cons hxy _ ih =>
    rw [List.mapM_cons] at has hbs
    obtain ⟨a, ha, has⟩ := bind_eq_ok.mp has
    obtain ⟨as, hxs, has⟩ := bind_eq_ok.mp has
    obtain rfl := Except.ok.inj has
    obtain ⟨b, hb, hbs⟩ := bind_eq_ok.mp hbs
    obtain ⟨bs, hys, hbs⟩ := bind_eq_ok.mp hbs
    obtain rfl := Except.ok.inj hbs
    exact .cons (hstep hxy ha hb) (ih hxs hys)

theorem alike_clauseFragments {xs ys fs gs : List Value} (hxs : ∀ v ∈ xs, v.ExactClause)
    (h : List.Forall₂ Value.Alike xs ys) (hfs : clauseFragments xs = .ok fs)
    (hgs : clauseFragments ys = .ok gs) : List.Forall₂ Value.Alike fs gs := by
  have hboth := (List.forall₂_and_left xs ys).mpr ⟨hxs, h⟩
  refine forall₂_mapM ?_ hboth hfs hgs
  rintro v w f g ⟨hv, hvw⟩ hf hg
  cases v with
  | null =>
    obtain rfl := hvw.eq_null
    obtain rfl := Except.ok.inj (hf.symm.trans hg)
    exact Value.Alike.refl f
  | node e =>
    obtain ⟨d, rfl, hed⟩ := hvw.exists_node
    obtain ⟨m, hm, hf⟩ := bind_eq_ok.mp hf
    obtain ⟨n, hn, hg⟩ := bind_eq_ok.mp hg
    obtain rfl := Except.ok.inj hf
    obtain rfl := Except.ok.inj hg
    exact Value.alike_map_iff.mpr (Expression.alike_render hv hed hm hn)
  | map =>
    obtain ⟨_, rfl, hentries⟩ := hvw.exists_map
    obtain rfl := Except.ok.inj hf
    obtain rfl := Except.ok.inj hg
    exact Value.alike_map_iff.mpr hentries
  | _ => cases hf

/-! ## Joins -/

/-- A number written as a fraction. -/
def Value.isReal : Value → Bool
  | .real _ => true
  | _ => false

namespace Join

variable {side : JoinSide} {v w : Value} {xs ys : List Value}

theorem ofValue?_eq (h : v.Alike w) : JoinMode.ofValue? v = JoinMode.ofValue? w := by
  cases v with
  | text => rw [h.eq_text]
  | _ =>
    cases w with
    | text => cases h
    | _ => rfl

theorem alike_groupOf (side : JoinSide) (key : String) (h : List.Forall₂ Value.Alike xs ys) :
    (groupOf side key xs).Alike (groupOf side key ys) :=
  alike_single key (alike_single side.name (Value.alike_list_iff.mpr h))

theorem alike_boolOf (key : String) (h : List.Forall₂ Value.Alike xs ys) :
    (boolOf key xs).Alike (boolOf key ys) :=
  alike_single "bool" (alike_single key (Value.alike_list_iff.mpr h))

theorem alike_atLeast (hmode : v.Alike w) (h : List.Forall₂ Value.Alike xs ys) :
    (atLeast v xs).Alike (atLeast w ys) :=
  alike_single "bool" ((alike_single "minimum_should_match" hmode).cons
    (entryAlike_entry "should" (Value.alike_list_iff.mpr h)))

theorem alike_bestOf {t u : Option Value} (ht : Option.Rel Value.Alike t u)
    (h : List.Forall₂ Value.Alike xs ys) : (bestOf t xs).Alike (bestOf u ys) := by
  have hlist : EntryAlike (entry "queries" (.list xs)) (entry "queries" (.list ys)) :=
    entryAlike_entry "queries" (Value.alike_list_iff.mpr h)
  cases ht with
  | none => exact alike_single "dis_max" ((Mapping.Alike.refl []).cons hlist)
  | some ht => exact alike_single "dis_max" ((alike_single "tie_breaker" ht).cons hlist)

theorem counted_queries (mode : Value) (clauses : List Value) :
    counted .queries mode clauses =
      if mode.isReal then bestOf (some mode) clauses else atLeast mode clauses := by
  cases mode <;> rfl

theorem counted_filters (mode : Value) (clauses : List Value) :
    counted .filters mode clauses = atLeast mode clauses := by
  cases mode <;> rfl

theorem alike_counted (hmode : v.Alike w) (hreal : side = .queries → v.isReal = w.isReal)
    (h : List.Forall₂ Value.Alike xs ys) : (counted side v xs).Alike (counted side w ys) := by
  cases side with
  | queries =>
    rw [counted_queries, counted_queries, hreal rfl]
    split
    · exact alike_bestOf (.some hmode) h
    · exact alike_atLeast hmode h
  | filters =>
    rw [counted_filters, counted_filters]
    exact alike_atLeast hmode h

/-- Modes that are alike wrap alike; only queries are told apart by how a number is written. -/
theorem alike_wrap {m n : Mapping} (hmode : v.Alike w)
    (hreal : side = .queries → v.isReal = w.isReal) (h : List.Forall₂ Value.Alike xs ys)
    (hm : wrap side v xs = .ok m) (hn : wrap side w ys = .ok n) : m.Alike n := by
  cases hname : JoinMode.ofValue? v with
  | none =>
    rw [wrap_of_unnamed hname] at hm
    rw [wrap_of_unnamed ((ofValue?_eq hmode).symm.trans hname)] at hn
    obtain ⟨-, -, hm⟩ := bind_eq_ok.mp hm
    obtain ⟨-, -, hn⟩ := bind_eq_ok.mp hn
    obtain rfl := Except.ok.inj hm
    obtain rfl := Except.ok.inj hn
    exact alike_counted hmode hreal h
  | some name =>
    simp only [wrap, hname] at hm
    simp only [wrap, ← ofValue?_eq hmode, hname] at hn
    cases name with
    | and | or =>
      obtain rfl := Except.ok.inj hm
      obtain rfl := Except.ok.inj hn
      exact alike_groupOf side _ h
    | must | should | mustNot =>
      obtain rfl := Except.ok.inj hm
      obtain rfl := Except.ok.inj hn
      exact alike_boolOf _ h
    | disMax =>
      cases side with
      | queries =>
        obtain rfl := Except.ok.inj hm
        obtain rfl := Except.ok.inj hn
        exact alike_bestOf .none h
      | filters =>
        obtain rfl := Except.ok.inj hm
        obtain rfl := Except.ok.inj hn
        exact alike_atLeast hmode h

theorem alike_present (h : List.Forall₂ Value.Alike xs ys) :
    List.Forall₂ Value.Alike (present xs) (present ys) :=
  List.rel_filter (fun v w hvw ↦ by
    change v.truthy = true ↔ w.truthy = true
    rw [hvw.truthy_eq]) h

theorem rel_wrap {r s : Option Value} (hmode : v.Alike w)
    (hreal : side = .queries → v.isReal = w.isReal) (h : List.Forall₂ Value.Alike xs ys)
    (hr : (wrap side v xs).map (fun m ↦ some (.map m)) = .ok r)
    (hs : (wrap side w ys).map (fun m ↦ some (.map m)) = .ok s) : Option.Rel Value.Alike r s := by
  change (do return some (.map (← wrap side v xs))) = Except.ok r at hr
  change (do return some (.map (← wrap side w ys))) = Except.ok s at hs
  refine rel_of_bind hr hs fun m n hm hn ↦ ?_
  exact .some (Value.alike_map_iff.mpr (alike_wrap hmode hreal h hm hn))

/-- Clauses that are alike, under modes that are alike, join alike. -/
theorem alike_join {r s : Option Value} (hmode : v.Alike w)
    (hreal : side = .queries → 2 ≤ (present xs).length → v.isReal = w.isReal)
    (h : List.Forall₂ Value.Alike xs ys) (hr : join side v xs = .ok r)
    (hs : join side w ys = .ok s) : Option.Rel Value.Alike r s := by
  have hpresent := alike_present h
  unfold join at hr hs
  rw [← hmode.isText_eq] at hs
  generalize present xs = ps at hpresent hreal hr
  generalize present ys = qs at hpresent hs
  cases hpresent with
  | nil =>
    obtain rfl := Except.ok.inj hr
    obtain rfl := Except.ok.inj hs
    exact .none
  | cons hxy hrest =>
    cases hrest with
    | cons hxy' hrest =>
      exact rel_wrap hmode (fun hside ↦ hreal hside (by simp)) (.cons hxy (.cons hxy' hrest)) hr hs
    | nil =>
      cases htext : v.isText JoinMode.mustNot.name with
      | true =>
        -- the wrapper of a lone clause is there for a name, not for a number
        rw [htext] at hr hs
        refine rel_wrap hmode (fun _ ↦ ?_) (.cons hxy .nil) hr hs
        cases v with
        | text => rw [hmode.eq_text]
        | _ => cases htext
      | false =>
        rw [htext] at hr hs
        obtain rfl := Except.ok.inj hr
        obtain rfl := Except.ok.inj hs
        exact .some hxy

theorem alike_join_filters {r s : Option Value} (hmode : v.Alike w)
    (h : List.Forall₂ Value.Alike xs ys) (hr : join .filters v xs = .ok r)
    (hs : join .filters w ys = .ok s) : Option.Rel Value.Alike r s := by
  refine alike_join hmode ?_ h hr hs
  rintro ⟨⟩

end Join

/-! ## Criteria -/

namespace Criteria

variable {a b : Criteria}

/-- What equality leaves open and compiling looks at is the same for both. -/
structure Comparable (a b : Criteria) : Prop where
  /-- Several queries are joined under a fraction in both or in neither. -/
  modes : ∀ fragments, clauseFragments a.queries = .ok fragments →
    2 ≤ (Join.present fragments).length →
      (a.mode "query_mode").isReal = (b.mode "query_mode").isReal
  /-- A query is filtered by strategies of one text. -/
  strategies : ∀ q f, a.joinedQuery = .ok (some q) → a.joinedFilter = .ok (some f) →
    a.strategyText = b.strategyText
  /-- Equality tells how the clauses are rendered. -/
  clauses : ∀ v ∈ a.queries ++ a.filters ++ a.postFilters, v.ExactClause

theorem alike_content (h : a.equal b = true) (s : Storage) : (a.content s).Alike (b.content s) :=
  List.all_eq_true.mp h s (Storage.mem_all s)

/-- Texts in a row are alike if they are the same. -/
theorem eq_of_alike_texts {xs ys : List String}
    (h : List.Forall₂ Value.Alike (xs.map .text) (ys.map .text)) : xs = ys := by
  rw [List.forall₂_map_left_iff, List.forall₂_map_right_iff] at h
  have hsame : List.Forall₂ Eq xs ys := h.imp fun _ _ ↦ Value.alike_text_iff.mp
  rwa [List.forall₂_eq_eq_eq] at hsame

theorem rel_option? (h : a.equal b = true) (ha : a.options.DistinctKeys) (name : String) :
    Option.Rel Value.Alike (a.option? name) (b.option? name) :=
  Mapping.Alike.getText? (alike_content h .options) ha name

theorem alike_getD {v w : Option Value} (h : Option.Rel Value.Alike v w) {x y : Value}
    (hxy : x.Alike y) : (v.getD x).Alike (w.getD y) := by
  cases h with
  | none => exact hxy
  | some h => exact h

theorem alike_mode (h : a.equal b = true) (ha : a.options.DistinctKeys) (name : String) :
    (a.mode name).Alike (b.mode name) :=
  alike_getD (rel_option? h ha name) (Value.Alike.refl .null)

theorem rel_filter {p : Value → Bool} (hp : ∀ {v w : Value}, v.Alike w → p v = p w)
    {v w : Option Value} (h : Option.Rel Value.Alike v w) :
    Option.Rel Value.Alike (v.filter p) (w.filter p) := by
  cases h with
  | none => exact .none
  | some h =>
    rw [Option.filter_some, Option.filter_some, hp h]
    split
    · exact .some h
    · exact .none

theorem present?_eq_filter (m : Mapping) (name : String) :
    m.present? name = (m.getText? name).filter fun v ↦ !(v matches .null) := by
  unfold Mapping.present?
  cases m.getText? name with
  | none => rfl
  | some v => cases v <;> rfl

/-- A mode that is null is absent, and null is alike to nothing else. -/
theorem alike_postFilterMode (h : a.equal b = true) (ha : a.options.DistinctKeys) :
    a.postFilterMode.Alike b.postFilterMode := by
  have hnull : ∀ {v w : Value}, v.Alike w → (!(v matches .null)) = !(w matches .null) := by
    intro v w hvw
    cases v with
    | null => rw [hvw.eq_null]
    | _ =>
      cases w with
      | null => cases hvw
      | _ => rfl
  rw [postFilterMode, postFilterMode, present?_eq_filter, present?_eq_filter]
  exact alike_getD (rel_filter hnull (rel_option? h ha "post_filter_mode"))
    (alike_mode h ha "filter_mode")

theorem rel_joinedQuery (h : a.equal b = true) (ha : a.Settled) (hab : Comparable a b)
    {q r : Option Value} (hq : a.joinedQuery = .ok q) (hr : b.joinedQuery = .ok r) :
    Option.Rel Value.Alike q r := by
  obtain ⟨fs, hfs, hq⟩ := bind_eq_ok.mp hq
  obtain ⟨gs, hgs, hr⟩ := bind_eq_ok.mp hr
  have hclauses := alike_clauseFragments (fun v hv ↦ hab.clauses v (by simp [hv]))
    (Value.alike_list_iff.mp (alike_content h .queries)) hfs hgs
  exact Join.alike_join (alike_mode h ha.options "query_mode") (fun _ ↦ hab.modes fs hfs)
    hclauses hq hr

theorem rel_joinedPostFilter (h : a.equal b = true) (ha : a.Settled) (hab : Comparable a b)
    {p r : Option Value} (hp : a.joinedPostFilter = .ok p) (hr : b.joinedPostFilter = .ok r) :
    Option.Rel Value.Alike p r := by
  obtain ⟨fs, hfs, hp⟩ := bind_eq_ok.mp hp
  obtain ⟨gs, hgs, hr⟩ := bind_eq_ok.mp hr
  have hclauses := alike_clauseFragments (fun v hv ↦ hab.clauses v (by simp [hv]))
    (Value.alike_list_iff.mp (alike_content h .postFilters)) hfs hgs
  exact Join.alike_join_filters (alike_postFilterMode h ha.options) hclauses hp hr

theorem forall₂_toList {v w : Option Value} (h : Option.Rel Value.Alike v w) :
    List.Forall₂ Value.Alike v.toList w.toList := by
  cases h with
  | none => exact .nil
  | some h => exact .cons h .nil

theorem alike_filterParts {v w : Value} {fs gs ps qs : List Value} (hmode : v.Alike w)
    (h : List.Forall₂ Value.Alike fs gs) (hp : filterParts v fs = .ok ps)
    (hq : filterParts w gs = .ok qs) : List.Forall₂ Value.Alike ps qs := by
  unfold filterParts at hp hq
  rw [← hmode.isText_eq] at hq
  split at hp
  · rename_i hand
    rw [if_pos hand] at hq
    obtain rfl := Except.ok.inj hp
    obtain rfl := Except.ok.inj hq
    exact h
  · rename_i hand
    rw [if_neg hand] at hq
    obtain ⟨r, hr, hp⟩ := bind_eq_ok.mp hp
    obtain ⟨s, hs, hq⟩ := bind_eq_ok.mp hq
    obtain rfl := Except.ok.inj hp
    obtain rfl := Except.ok.inj hq
    exact forall₂_toList (Join.alike_join_filters hmode h hr hs)

theorem rel_joinedFilter (h : a.equal b = true) (ha : a.Settled) (hab : Comparable a b)
    {f r : Option Value} (hf : a.joinedFilter = .ok f) (hr : b.joinedFilter = .ok r) :
    Option.Rel Value.Alike f r := by
  obtain ⟨fs, types, ps, hfs, htypes, hps, hf⟩ := joinedFilter_eq_ok hf
  obtain ⟨gs, others, qs, hgs, hothers, hqs, hr⟩ := joinedFilter_eq_ok hr
  have hnames : a.types = b.types :=
    eq_of_alike_texts (Value.alike_list_iff.mp (alike_content h .types))
  have hclauses := alike_clauseFragments (fun v hv ↦ hab.clauses v (by simp [hv]))
    (Value.alike_list_iff.mp (alike_content h .filters)) hfs hgs
  have hparts := alike_filterParts (alike_mode h ha.options "filter_mode") hclauses hps hqs
  rw [joinedTypes, ← hnames] at hothers
  obtain rfl := Except.ok.inj (htypes.symm.trans hothers)
  have htypes : List.Forall₂ Value.Alike types.toList types.toList :=
    List.forall₂_same.mpr fun v _ ↦ Value.Alike.refl v
  exact Join.alike_join_filters (Value.Alike.refl _) (List.rel_append htypes hparts) hf hr

end Criteria

/-! ## Documents -/

namespace Request

open Criteria (alike_content rel_option? rel_filter)

variable {a b : Criteria} {q r f g : Option Value}

theorem alike_filtered {q r f g : Value} (hq : q.Alike r) (hf : f.Alike g)
    (text : Option String) : (filtered q f text).Alike (filtered r g text) := by
  have hrest := Mapping.Alike.refl (text.map fun s ↦ entry "strategy" (.text s)).toList
  have hparts := (hrest.cons (entryAlike_entry "filter" hf)).cons (entryAlike_entry "query" hq)
  exact alike_single "filtered" (Value.alike_map_iff.mpr hparts)

/-- What bodies start with is alike, if the strategies are written the same. -/
theorem forall₂_leading {text other : Option String} (hq : Option.Rel Value.Alike q r)
    (hf : Option.Rel Value.Alike f g) (htext : q.isSome = true → f.isSome = true → text = other) :
    List.Forall₂ EntryAlike (leading text q f) (leading other r g) := by
  cases hq with
  | none =>
    cases hf with
    | none => exact .nil
    | some hf => exact .cons (entryAlike_entry "filter" hf) .nil
  | some hq =>
    cases hf with
    | none => exact .cons (entryAlike_entry "query" hq) .nil
    | some hf =>
      obtain rfl := htext rfl rfl
      exact .cons (entryAlike_entry "query" (Value.alike_map_iff.mpr (alike_filtered hq hf text)))
        .nil

/-- A section for a mapping is there unless the mapping is empty. -/
theorem rel_section {m n : Mapping} (h : m.Alike n) :
    Option.Rel Value.Alike (if m.isEmpty then none else some (.map m))
      (if n.isEmpty then none else some (.map n)) := by
  rw [isEmpty_of_agreeEntries h]
  split
  · exact .none
  · exact .some (Value.alike_map_iff.mpr h)

theorem matched_sections (h : a.equal b = true) {p p' : Option Value}
    (hp : Option.Rel Value.Alike p p') :
    List.Forall₂ (Association.Matched (Option.Rel Value.Alike)) (sections a p)
      (sections b p') := by
  have hsort : List.Forall₂ Value.Alike a.sort b.sort :=
    Value.alike_list_iff.mp (alike_content h .sort)
  have hfields : a.fields = b.fields :=
    Criteria.eq_of_alike_texts (Value.alike_list_iff.mp (alike_content h .fields))
  refine .cons ⟨rfl, hp⟩ (.cons ⟨rfl, rel_section (alike_content h .facets)⟩
    (.cons ⟨rfl, rel_section (alike_content h .aggregations)⟩
    (.cons ⟨rfl, rel_section (alike_content h .suggest)⟩
    (.cons ⟨rfl, ?sort⟩ (.cons ⟨rfl, ?fields⟩
    (.cons ⟨rfl, rel_section (alike_content h .scriptFields)⟩ .nil))))))
  case sort =>
    rw [isEmpty_of_forall₂ hsort]
    split
    · exact .none
    · exact .some (Value.alike_list_iff.mpr hsort)
  case fields =>
    rw [hfields]
    split
    · exact .none
    · exact .some (Value.Alike.refl _)

theorem rel_truthy? (h : a.equal b = true) (ha : a.options.DistinctKeys) (name : String) :
    Option.Rel Value.Alike (a.options.truthy? name) (b.options.truthy? name) :=
  rel_filter Value.Alike.truthy_eq (rel_option? h ha name)

theorem isSimple_eq (h : a.equal b = true) (ha : a.options.DistinctKeys) :
    isSimple a = isSimple b := by
  have hsimple := rel_truthy? h ha "simple"
  unfold isSimple
  generalize a.options.truthy? "simple" = v at hsimple ⊢
  generalize b.options.truthy? "simple" = w at hsimple ⊢
  cases hsimple <;> rfl

theorem alike_scored (h : a.equal b = true) (ha : a.options.DistinctKeys) {start start' : Mapping}
    (hstart : List.Forall₂ EntryAlike start start') :
    List.Forall₂ EntryAlike (scored a start) (scored b start') := by
  have hparts : List.Forall₂ (Association.Matched (Option.Rel Value.Alike)) (scoreParts a start)
      (scoreParts b start') :=
    .cons ⟨rfl, .some (alike_content h .scores)⟩ (.cons ⟨rfl, rel_truthy? h ha "boost_mode"⟩
      (.cons ⟨rfl, rel_truthy? h ha "score_mode"⟩
      (.cons ⟨rfl, Mapping.getText?_of_forall₂ hstart "query"⟩
      (.cons ⟨rfl, Mapping.getText?_of_forall₂ hstart "filter"⟩ .nil))))
  have hmap := Mapping.alike_of_forall₂ (Mapping.forall₂_ofNamed hparts)
  have hscore := alike_single "function_score" (Value.alike_map_iff.mpr hmap)
  exact .cons (entryAlike_entry "query" (Value.alike_map_iff.mpr hscore)) .nil

/-! ### The body under the request options -/

/-- The sections with what stands before them, or with the scored query behind them. -/
def assembled (c : Criteria) (p : Option Value) (start : Mapping) : Mapping :=
  if c.scores.isEmpty then start ++ ofNamed (sections c p)
  else ofNamed (sections c p) ++ scored c start

theorem boost_attach {c : Criteria} (hq : q ≠ some .null) (hf : f ≠ some .null)
    (text : Option String) (p : Option Value) :
    boost (attach c p (leading text q f)) c.scores c.options =
      assembled c p (leading text q f) := by
  rw [attach_leading, assembled]
  split
  · rename_i hscores
    rw [boost, if_pos hscores]
  · rename_i hscores
    exact boost_leading (by simpa using hscores) hq hf text p

theorem distinctKeys_assembled (c : Criteria) (p : Option Value) (text : Option String)
    (q f : Option Value) : (assembled c p (leading text q f)).DistinctKeys := by
  have hleading : ∃ query filter, leading text q f =
      ofNamed [("query", query), ("filter", filter)] := by
    cases q <;> cases f
    · exact ⟨none, none, rfl⟩
    · exact ⟨none, some _, rfl⟩
    · exact ⟨some _, none, rfl⟩
    · exact ⟨some _, none, rfl⟩
  unfold assembled
  split
  · obtain ⟨query, filter, heq⟩ := hleading
    rw [heq, ← Mapping.ofNamed_append]
    refine Mapping.distinctKeys_ofNamed ?_
    rw [List.map_append, map_fst_sections]
    change (["query", "filter"] ++ sectionNames).Nodup
    decide
  · have hscored : scored c (leading text q f) = ofNamed [("query", some (.map (single
        "function_score" (.map (ofNamed (scoreParts c (leading text q f)))))))] := rfl
    rw [hscored, ← Mapping.ofNamed_append]
    refine Mapping.distinctKeys_ofNamed ?_
    rw [List.map_append, map_fst_sections]
    change (sectionNames ++ ["query"]).Nodup
    decide

theorem forall₂_assembled (h : a.equal b = true) (ha : a.options.DistinctKeys)
    {p p' : Option Value} (hp : Option.Rel Value.Alike p p') {start start' : Mapping}
    (hstart : List.Forall₂ EntryAlike start start') :
    List.Forall₂ EntryAlike (assembled a p start) (assembled b p' start') := by
  have hsections := Mapping.forall₂_ofNamed (matched_sections h hp)
  have hscores : List.Forall₂ Value.Alike a.scores b.scores :=
    Value.alike_list_iff.mp (alike_content h .scores)
  unfold assembled
  rw [isEmpty_of_forall₂ hscores]
  split
  · exact List.rel_append hstart hsections
  · exact List.rel_append hsections (alike_scored h ha hstart)

theorem forall₂_base (h : a.equal b = true) (ha : a.Settled) (hab : a.Comparable b)
    (hq : a.joinedQuery = .ok q) (hr : b.joinedQuery = .ok r) (hf : a.joinedFilter = .ok f)
    (hg : b.joinedFilter = .ok g) {start start' : Mapping}
    (hstart : base q f (a.option? "strategy") = .ok start)
    (hstart' : base r g (b.option? "strategy") = .ok start') :
    ∃ text other, start = leading text q f ∧ start' = leading other r g ∧
      List.Forall₂ EntryAlike start start' := by
  have hqr := Criteria.rel_joinedQuery h ha hab hq hr
  have hfg := Criteria.rel_joinedFilter h ha hab hf hg
  obtain ⟨text, rfl, htext⟩ := base_eq_ok hstart
  obtain ⟨other, rfl, hother⟩ := base_eq_ok hstart'
  refine ⟨text, other, rfl, rfl, forall₂_leading hqr hfg fun hqsome hfsome ↦ ?_⟩
  have hwritten : a.strategyText = .ok text := htext hqsome hfsome
  cases hqr with
  | none => cases hqsome
  | some =>
    cases hfg with
    | none => cases hfsome
    | some =>
      have hsame : a.strategyText = b.strategyText := hab.strategies _ _ hq hf
      exact Except.ok.inj ((hwritten.symm.trans hsame).trans (hother rfl rfl))

/-- Criteria that are equal have bodies that are alike, where they are comparable. -/
theorem alike_body (h : a.equal b = true) (ha : a.Settled) (hab : a.Comparable b) {d e : Mapping}
    (hd : body a = .ok d) (he : body b = .ok e) : d.Alike e := by
  obtain ⟨q, hq, hd⟩ := bind_eq_ok.mp hd
  obtain ⟨f, hf, hd⟩ := bind_eq_ok.mp hd
  obtain ⟨start, hstart, hd⟩ := bind_eq_ok.mp hd
  obtain ⟨r, hr, he⟩ := bind_eq_ok.mp he
  obtain ⟨g, hg, he⟩ := bind_eq_ok.mp he
  obtain ⟨start', hstart', he⟩ := bind_eq_ok.mp he
  obtain ⟨text, other, heq, heq', halike⟩ := forall₂_base h ha hab hq hr hf hg hstart hstart'
  rw [← isSimple_eq h ha.options] at he
  cases hsimple : isSimple a with
  | true =>
    rw [hsimple] at hd he
    obtain rfl := Except.ok.inj hd
    obtain rfl := Except.ok.inj he
    rw [isEmpty_of_forall₂ halike]
    split
    · exact Mapping.Alike.refl matchAll
    · exact Mapping.alike_of_forall₂ halike
  | false =>
    rw [hsimple] at hd he
    obtain ⟨p, hp, hd⟩ := bind_eq_ok.mp hd
    obtain ⟨p', hp', he⟩ := bind_eq_ok.mp he
    obtain rfl := Except.ok.inj hd
    obtain rfl := Except.ok.inj he
    have hpost := Criteria.rel_joinedPostFilter h ha hab hp hp'
    have hbase := Mapping.alike_of_forall₂ (forall₂_assembled h ha.options hpost halike)
    obtain ⟨hqnull, hfnull⟩ := joined_ne_null hq hf
    obtain ⟨hrnull, hgnull⟩ := joined_ne_null hr hg
    rw [heq, heq'] at hbase ⊢
    rw [boost_attach hqnull hfnull, boost_attach hrnull hgnull]
    exact hbase.overlay (alike_content h .requestOptions)
      (distinctKeys_assembled a p text q f) ha.requestOptions

end Request

/-- Criteria that are equal compile to documents that are alike, where they are comparable. -/
theorem Criteria.alike_compile {a b : Criteria} (h : a.equal b = true) (ha : a.Settled)
    (hab : a.Comparable b) {d e : Mapping} (hd : a.compile = .ok d) (he : b.compile = .ok e) :
    d.Alike e := by
  obtain ⟨body, hbody, hd⟩ := bind_eq_ok.mp hd
  obtain ⟨body', hbody', he⟩ := bind_eq_ok.mp he
  obtain rfl := Except.ok.inj hd
  obtain rfl := Except.ok.inj he
  have hbodies : body.Alike body' := Request.alike_body h ha hab hbody hbody'
  exact alike_single "body" (Value.alike_map_iff.mpr hbodies)

end SearchCriteria
