import SearchCriteria.Proofs.Expression.Vacancy
import SearchCriteria.Proofs.Request.Sections

/-!
# Bodies without hollow clauses

Joins drop what is empty and wrap what is full, and the clauses of a body come of joins, of scoring
functions or of the request options.  So if none of what a criteria holds brings a hollow clause,
there is none in its body.
-/

namespace SearchCriteria

open Mapping (entry single ofNamed)
open Fragment (full_single full_cons_entry fullAt_clause fullAt_row fullAt_other)

/-- A node without a wrapper over a vacant one, or a mapping that is full. -/
def Value.firmClause : Value → Bool
  | .node e => e.rawFull && e.firm
  | .map entries => (Value.map entries).full
  | _ => true

/-- What counts of the fragments of firm clauses is full. -/
theorem full_of_mem_present {clauses fragments : List Value}
    (h : clauseFragments clauses = .ok fragments) (hfirm : ∀ v ∈ clauses, v.firmClause = true) :
    ∀ w ∈ Join.present fragments, w.full = true := by
  intro w hw
  obtain ⟨hw, htruthy⟩ := List.mem_filter.mp hw
  obtain ⟨v, hv, hfragment⟩ := exists_mem_of_mapM h hw
  have hclause := hfirm v hv
  cases v with
  | node e =>
    obtain ⟨f, hf, hfragment⟩ := bind_eq_ok.mp hfragment
    obtain rfl := Except.ok.inj hfragment
    obtain ⟨hraw, hfirm⟩ := Bool.and_eq_true_iff.mp hclause
    rw [Fragment.full_eq, Expression.tidy_render hraw hf, hfirm, Bool.and_true]
    exact htruthy
  | map entries =>
    obtain rfl := Except.ok.inj hfragment
    exact hclause
  | null =>
    obtain rfl := Except.ok.inj hfragment
    cases htruthy
  | _ => cases hfragment

namespace Join

variable {side : JoinSide} {mode : Value} {clauses : List Value}

theorem fullRow_of_forall (h : ∀ w ∈ clauses, w.full = true) :
    (Value.list clauses).fullRow = true := by
  rw [Value.fullRow, fullItems_eq]
  exact List.all_eq_true.mpr h

theorem full_groupOf {key : String} (hkey : key ∈ ["and", "or"])
    (h : ∀ w ∈ clauses, w.full = true) :
    (Value.map (groupOf side key clauses)).full = true := by
  have hnames : ∀ key ∈ ["and", "or"], key ≠ Fragment.cacheKey ∧ key ∈ Clause.keys ∧
      key ∉ Clause.rowKeys := by decide
  have hname := hnames key hkey
  have hside : side.name ≠ Fragment.cacheKey ∧ side.name ∉ Clause.keys ∧
      side.name ∈ Clause.rowKeys := by
    cases side <;> decide
  rw [groupOf, full_single hname.1, fullAt_clause hname.2.1 hname.2.2, full_single hside.1,
    fullAt_row hside.2.1 hside.2.2]
  exact fullRow_of_forall h

theorem full_boolOf {key : String} (hkey : key ∈ ["must", "should", "must_not"])
    (h : ∀ w ∈ clauses, w.full = true) : (Value.map (boolOf key clauses)).full = true := by
  have hnames : ∀ key ∈ ["must", "should", "must_not"], key ≠ Fragment.cacheKey ∧
      key ∉ Clause.keys ∧ key ∈ Clause.rowKeys := by decide
  have hname := hnames key hkey
  rw [boolOf, full_single (by decide), fullAt_clause (by decide) (by decide),
    full_single hname.1, fullAt_row hname.2.1 hname.2.2]
  exact fullRow_of_forall h

theorem full_atLeast (h : ∀ w ∈ clauses, w.full = true) :
    (Value.map (atLeast mode clauses)).full = true := by
  rw [atLeast, full_single (by decide), fullAt_clause (by decide) (by decide),
    full_cons_entry (by decide), fullAt_row (by decide) (by decide), fullRow_of_forall h,
    List.all_cons, fullAt_other (by decide) (by decide)]
  rfl

theorem full_bestOf {tieBreaker : Option Value} (h : ∀ w ∈ clauses, w.full = true) :
    (Value.map (bestOf tieBreaker clauses)).full = true := by
  rw [bestOf, full_single (by decide), fullAt_clause (by decide) (by decide),
    full_cons_entry (by decide), fullAt_row (by decide) (by decide), fullRow_of_forall h]
  cases tieBreaker with
  | none => rfl
  | some v =>
    rw [Option.toList_some, List.map_singleton, List.all_cons,
      fullAt_other (by decide) (by decide)]
    rfl

/-- A wrapper around full clauses is full. -/
theorem full_wrap {m : Mapping} (hwrap : wrap side mode clauses = .ok m)
    (h : ∀ w ∈ clauses, w.full = true) : (Value.map m).full = true := by
  cases hmode : JoinMode.ofValue? mode with
  | none =>
    rw [wrap_of_unnamed hmode] at hwrap
    obtain ⟨-, -, hm⟩ := bind_eq_ok.mp hwrap
    obtain rfl := Except.ok.inj hm
    unfold counted
    split
    · exact full_bestOf h
    · exact full_atLeast h
  | some name =>
    cases name with
    | and | or =>
      simp only [wrap, hmode] at hwrap
      obtain rfl := Except.ok.inj hwrap
      exact full_groupOf (by decide) h
    | must | should | mustNot =>
      simp only [wrap, hmode] at hwrap
      obtain rfl := Except.ok.inj hwrap
      exact full_boolOf (by decide) h
    | disMax =>
      cases side with
      | queries =>
        simp only [wrap, hmode] at hwrap
        obtain rfl := Except.ok.inj hwrap
        exact full_bestOf h
      | filters =>
        simp only [wrap, hmode] at hwrap
        obtain rfl := Except.ok.inj hwrap
        exact full_atLeast h

theorem Joins.full {fragments : List Value} {result : Option Value}
    (hjoins : Joins side mode fragments result) (h : ∀ w ∈ present fragments, w.full = true) :
    ∀ w ∈ result, w.full = true := by
  rintro w hw
  cases hjoins with
  | nothing => cases hw
  | lone hlone =>
    obtain rfl := Option.some.inj hw
    refine h _ ?_
    rw [hlone]
    exact List.mem_singleton_self _
  | several _ _ hwrap =>
    obtain rfl := Option.some.inj hw
    exact full_wrap hwrap h

end Join

namespace Criteria

variable {c : Criteria}

/-- Nothing that the criteria holds brings a hollow clause. -/
structure Firm (c : Criteria) : Prop where
  queries (v : Value) (hv : v ∈ c.queries) : v.firmClause = true
  filters (v : Value) (hv : v ∈ c.filters) : v.firmClause = true
  postFilters (v : Value) (hv : v ∈ c.postFilters) : v.firmClause = true
  scores (v : Value) (hv : v ∈ c.scores) : v.full = true
  requestOptions : fullEntries c.requestOptions = true

theorem full_joinedQuery (hc : c.Firm) {q : Option Value} (h : c.joinedQuery = .ok q) :
    ∀ w ∈ q, w.full = true := by
  obtain ⟨fragments, hfragments, hjoins⟩ := joinedQuery_eq_ok h
  exact hjoins.full (full_of_mem_present hfragments hc.queries)

theorem full_joinedPostFilter (hc : c.Firm) {p : Option Value} (h : c.joinedPostFilter = .ok p) :
    ∀ w ∈ p, w.full = true := by
  obtain ⟨fragments, hfragments, hjoins⟩ := joinedPostFilter_eq_ok h
  exact hjoins.full (full_of_mem_present hfragments hc.postFilters)

theorem full_joinedFilter (hc : c.Firm) {f : Option Value} (h : c.joinedFilter = .ok f) :
    ∀ w ∈ f, w.full = true := by
  obtain ⟨fragments, types, parts, hfragments, htypes, hparts, hjoin⟩ := joinedFilter_eq_ok h
  have hpresent := full_of_mem_present hfragments hc.filters
  have htype : ∀ w ∈ types, w.full = true := by
    refine (Join.joins_of_eq_ok htypes).full fun w hw ↦ ?_
    obtain ⟨name, -, rfl⟩ := List.mem_map.mp (List.mem_of_mem_filter hw)
    rw [typeFragment, full_single (by decide), fullAt_other (by decide) (by decide)]
  have hpart : ∀ w ∈ Join.present parts, w.full = true := by
    unfold filterParts at hparts
    split at hparts
    · obtain rfl := Except.ok.inj hparts
      exact hpresent
    · obtain ⟨joined, hjoined, hparts⟩ := bind_eq_ok.mp hparts
      obtain rfl := Except.ok.inj hparts
      intro w hw
      have hw := Option.mem_toList.mp (List.mem_of_mem_filter hw)
      exact (Join.joins_of_eq_ok hjoined).full hpresent w hw
  refine (Join.joins_of_eq_ok hjoin).full ?_
  rw [Join.present_append]
  refine forall_mem_append (fun w hw ↦ ?_) hpart
  exact htype w (Option.mem_toList.mp (List.mem_of_mem_filter hw))

end Criteria

namespace Request

variable {c : Criteria}

/-- Named parts are full if each of them is full where it stands. -/
theorem fullEntries_ofNamed {parts : List (String × Option Value)}
    (h : ∀ part ∈ parts, ∀ v ∈ part.2, fullAt (entry part.1 v) = true) :
    fullEntries (ofNamed parts) = true := by
  rw [fullEntries_eq, List.all_eq_true]
  intro e he
  obtain ⟨part, hpart, he⟩ := List.mem_flatMap.mp he
  obtain ⟨v, hv, rfl⟩ := Option.map_eq_some_iff.mp (Option.mem_toList.mp he)
  exact h part hpart v hv

/-- The same key asks for the same of its value. -/
theorem isAmong_congr {key other : Value} (h : key.sameKey other = true) (names : List String) :
    Clause.isAmong names key = Clause.isAmong names other := by
  have htext : ∀ {k : Value} {t : String}, k.sameKey (.text t) = true → k = .text t := by
    intro k t hk
    rw [Value.sameKey_text] at hk
    cases k with
    | text s => rw [eq_of_beq (a := s) (b := t) hk]
    | _ => cases hk
  cases other with
  | text t => rw [htext h]
  | _ =>
    cases key with
    | text s => cases htext (Value.agrees_symm h)
    | _ => rfl

/-- Entries that are put over full ones are full, if each of them is. -/
theorem fullEntries_overlay {mapping additions : Mapping} (h : fullEntries mapping = true)
    (hadditions : fullEntries additions = true) :
    fullEntries (mapping.overlay additions) = true := by
  have hput : ∀ {m : Mapping} {e}, m.all fullAt = true → fullAt e = true →
      (m.put e.1 e.2).all fullAt = true := by
    intro m e hm he
    induction m with
    | nil => simp [Mapping.put, he]
    | cons first rest ih =>
      obtain ⟨key, value⟩ := first
      obtain ⟨hfirst, hrest⟩ := Bool.and_eq_true_iff.mp hm
      rw [Mapping.put, Association.put]
      split
      · rename_i hkey
        rw [List.all_cons, hrest, Bool.and_true, fullAt, isAmong_congr hkey, isAmong_congr hkey]
        exact he
      · rw [List.all_cons, hfirst, Bool.true_and]
        exact ih hrest
  rw [fullEntries_eq] at h hadditions ⊢
  induction additions generalizing mapping with
  | nil => exact h
  | cons e additions ih =>
    obtain ⟨he, hrest⟩ := Bool.and_eq_true_iff.mp hadditions
    exact ih (hput h he) hrest

theorem fullEntries_leading {strategy : Option String} {q f : Option Value}
    (hq : ∀ w ∈ q, w.full = true) (hf : ∀ w ∈ f, w.full = true) :
    fullEntries (leading strategy q f) = true := by
  have hentry : ∀ {name}, name ∈ Clause.keys → name ∉ Clause.rowKeys → ∀ {v : Value},
      v.full = true → fullEntries [entry name v] = true := by
    intro name hname hrow v hv
    rw [fullEntries_eq, List.all_cons, fullAt_clause hname hrow, hv]
    rfl
  cases q with
  | none =>
    cases f with
    | none => rfl
    | some f => exact hentry (by decide) (by decide) (hf f rfl)
  | some q =>
    cases f with
    | none => exact hentry (by decide) (by decide) (hq q rfl)
    | some f =>
      refine hentry (by decide) (by decide) ?_
      rw [filtered, full_single (by decide), fullAt_clause (by decide) (by decide)]
      rw [List.cons_append, full_cons_entry (by decide), fullAt_clause (by decide) (by decide),
        hq q rfl, List.cons_append, List.all_cons, fullAt_clause (by decide) (by decide),
        hf f rfl]
      cases strategy with
      | none => rfl
      | some s => rfl

theorem fullEntries_sections (c : Criteria) {p : Option Value} (hp : ∀ w ∈ p, w.full = true) :
    fullEntries (ofNamed (sections c p)) = true := by
  refine fullEntries_ofNamed ?_
  simp only [sections, List.forall_mem_cons]
  refine ⟨fun v hv ↦ ?_, fun v _ ↦ ?_, fun v _ ↦ ?_, fun v _ ↦ ?_, fun v _ ↦ ?_, fun v _ ↦ ?_,
    fun v _ ↦ ?_, fun _ h ↦ absurd h List.not_mem_nil⟩
  · rw [fullAt_clause (by decide) (by decide)]
    exact hp v hv
  all_goals exact fullAt_other (by decide) (by decide) v

/-- What is found under a clause key of full entries is full. -/
theorem full_of_getText? {mapping : Mapping} {name : String} (h : fullEntries mapping = true)
    (hname : name ∈ Clause.keys) (hrow : name ∉ Clause.rowKeys) :
    ∀ v ∈ mapping.getText? name, v.full = true := by
  intro v hv
  obtain ⟨e, he, hkey, rfl⟩ := Association.exists_mem_of_get? hv
  rw [fullEntries_eq, List.all_eq_true] at h
  have hfull := h e he
  obtain ⟨key, value⟩ := e
  cases key with
  | text s =>
    obtain rfl := eq_of_beq (a := s) (b := name) hkey
    exact (fullAt_clause hname hrow value).symm.trans hfull
  | _ => cases hkey

theorem fullEntries_scored {start : Mapping} (hscores : ∀ v ∈ c.scores, v.full = true)
    (hstart : fullEntries start = true) : fullEntries (scored c start) = true := by
  have hparts : fullEntries (ofNamed (scoreParts c start)) = true := by
    refine fullEntries_ofNamed ?_
    simp only [scoreParts, List.forall_mem_cons]
    refine ⟨?_, fun v _ ↦ ?_, fun v _ ↦ ?_, fun v hv ↦ ?_, fun v hv ↦ ?_,
      fun _ h ↦ absurd h List.not_mem_nil⟩
    · rintro v hv
      obtain rfl := Option.some.inj hv
      rw [fullAt_row (by decide) (by decide)]
      exact Join.fullRow_of_forall hscores
    · exact fullAt_other (by decide) (by decide) v
    · exact fullAt_other (by decide) (by decide) v
    · rw [fullAt_clause (by decide) (by decide)]
      exact full_of_getText? hstart (by decide) (by decide) v hv
    · rw [fullAt_clause (by decide) (by decide)]
      exact full_of_getText? hstart (by decide) (by decide) v hv
  have hfull : (Value.map (ofNamed (scoreParts c start))).full = true := by
    rw [scoreParts, Mapping.ofNamed_some, full_cons_entry (by decide), ← List.all_cons,
      ← fullEntries_eq]
    exact hparts
  rw [scored, single, fullEntries_eq, List.all_cons, fullAt_clause (by decide) (by decide),
    full_single (by decide), fullAt_clause (by decide) (by decide), hfull]
  rfl

theorem fullEntries_of_started {q f : Option Value} {strategy : Option String} (hc : c.Firm)
    (h : Started c q f strategy) : fullEntries (leading strategy q f) = true :=
  fullEntries_leading (Criteria.full_joinedQuery hc h.query)
    (Criteria.full_joinedFilter hc h.filter)

/-- A body has no hollow clause if nothing in the criteria brings one. -/
theorem fullEntries_assembled (hc : c.Firm) {body : Mapping} (h : Assembled c body) :
    fullEntries body = true := by
  cases h with
  | simple _ hstart =>
    split
    · rfl
    · exact fullEntries_of_started hc hstart
  | plain _ _ hstart hp =>
    refine fullEntries_overlay ?_ hc.requestOptions
    rw [fullEntries_eq, List.all_append, ← fullEntries_eq, ← fullEntries_eq,
      fullEntries_of_started hc hstart, fullEntries_sections c (Criteria.full_joinedPostFilter hc hp)]
    rfl
  | boosted _ _ hstart hp =>
    refine fullEntries_overlay ?_ hc.requestOptions
    rw [fullEntries_eq, List.all_append, ← fullEntries_eq, ← fullEntries_eq,
      fullEntries_sections c (Criteria.full_joinedPostFilter hc hp),
      fullEntries_scored hc.scores (fullEntries_of_started hc hstart)]
    rfl

end Request

end SearchCriteria
