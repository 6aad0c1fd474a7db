import SearchCriteria.Proofs.Request.Agreement
import SearchCriteria.Proofs.Session.Outcome

/-!
# Equal criteria of sessions

Whatever two programs did to their criteria, if these come out equal then so do their requests, as
long as what equality leaves open is settled: whether a mode is a fraction, how a strategy is
written, and in which order the parameters of a script and the ends of a range are read.  Each of
these can make a difference.
-/

namespace SearchCriteria.Session

open Mapping (entry)

/--
Equal criteria and equal searches compile to equal documents, where they are comparable: several
queries are joined under a fraction in both or in neither, the strategies that a query is filtered
by are written the same, and equality tells how the scripts and ranges in the clauses are read.
-/
theorem equal_documents (operations others : List Operation) :
    (∀ a ∈ Session.run operations, ∀ b ∈ Session.run others, a.equal b = true → a.Comparable b →
      ∀ d e, a.compile = .ok d → b.compile = .ok e → Value.equal (.map d) (.map e) = true) ∧
    (∀ s t : Search, s.criteria ∈ Session.run operations → t.criteria ∈ Session.run others →
      s.equal t = true → s.criteria.Comparable t.criteria →
      ∀ d e, s.request = .ok d → t.request = .ok e → Value.equal (.map d) (.map e) = true) := by
  have hcriteria : ∀ a ∈ Session.run operations, ∀ b ∈ Session.run others, a.equal b = true →
      a.Comparable b → ∀ d e, a.compile = .ok d → b.compile = .ok e →
        Value.equal (.map d) (.map e) = true := by
    intro a ha b _ hab hcomparable d e hd he
    exact Criteria.alike_compile hab (settled_run operations a ha) hcomparable hd he
  refine ⟨hcriteria, ?_⟩
  intro s t hs ht hst hcomparable d e hd he
  rw [Search.request_eq_compile] at hd he
  exact hcriteria s.criteria hs t.criteria ht hst hcomparable d e hd he

/-- Truth values for numbers and entries in another order, in the options as in the clauses. -/
theorem equal_documents_of_sessions :
    let scripted (one : Value) : Value := .node (.script "s" (.tuple [.tuple [.text "n", one]]))
    let near (place : Mapping) : Value := .node (.cached (.raw [entry "geo" (.map place)]))
    let session (options plain place paging : Mapping) (one : Value) : List Operation :=
      [.criteria {} (.map options),
        .update 0 { storage := .queries, patch := .list [scripted one, .map plain] },
        .update 0 { storage := .filters, patch := near place },
        .update 0 { storage := .requestOptions, patch := .map paging }]
    let body (plain place paging : Mapping) (one : Value) : Mapping :=
      entry "query" (.map [entry "filtered" (.map
        [entry "query" (.map [entry "bool" (.map
          [entry "should" (.list [.map [entry "script" (.map
              [entry "script" (.text "s"), entry "params" (.map [entry "n" one])])], .map plain]),
            entry "minimum_should_match" one])]),
          entry "filter" (.map [entry "geo" (.map (place ++ [entry "_cache" (.bool true)]))]),
          entry "strategy" (.text "fast")])]) :: paging
    let operations := session [entry "query_mode" (.int 1), entry "strategy" (.text "fast")]
      [entry "a" (.int 0), entry "b" (.int 2)] [entry "lat" (.int 1), entry "lon" (.int 0)]
      [entry "size" (.int 5), entry "from" (.int 0)] (.int 1)
    let others := session [entry "strategy" (.text "fast"), entry "query_mode" (.bool true)]
      [entry "b" (.int 2), entry "a" (.bool false)] [entry "lon" (.bool false), entry "lat" (.int 1)]
      [entry "from" (.bool false), entry "size" (.int 5)] (.bool true)
    let d := Request.document (body [entry "a" (.int 0), entry "b" (.int 2)]
      [entry "lat" (.int 1), entry "lon" (.int 0)]
      [entry "size" (.int 5), entry "from" (.int 0)] (.int 1))
    let e := Request.document (body [entry "b" (.int 2), entry "a" (.bool false)]
      [entry "lon" (.bool false), entry "lat" (.int 1)]
      [entry "from" (.bool false), entry "size" (.int 5)] (.bool true))
    ∃ a ∈ Session.run operations, ∃ b ∈ Session.run others,
      a.equal b = true ∧ a.Comparable b ∧ a.compile = .ok d ∧ b.compile = .ok e ∧
        Value.equal (.map d) (.map e) = true := by
  intro scripted near session body operations others d e
  let a : Criteria :=
    { Criteria.start {} [entry "query_mode" (.int 1), entry "strategy" (.text "fast")] with
      queries := [scripted (.int 1), .map [entry "a" (.int 0), entry "b" (.int 2)]]
      filters := [near [entry "lat" (.int 1), entry "lon" (.int 0)]]
      requestOptions := [entry "size" (.int 5), entry "from" (.int 0)] }
  let b : Criteria :=
    { Criteria.start {} [entry "strategy" (.text "fast"), entry "query_mode" (.bool true)] with
      queries := [scripted (.bool true), .map [entry "b" (.int 2), entry "a" (.bool false)]]
      filters := [near [entry "lon" (.bool false), entry "lat" (.int 1)]]
      requestOptions := [entry "from" (.bool false), entry "size" (.int 5)] }
  have hrun : Session.run operations = [a] := by
    dsimp only [operations, session, scripted, near, a]
    rfl
  have hothers : Session.run others = [b] := by
    dsimp only [others, session, scripted, near, b]
    rfl
  have ha : a ∈ Session.run operations := hrun ▸ List.mem_singleton_self a
  have hb : b ∈ Session.run others := hothers ▸ List.mem_singleton_self b
  have hequal : a.equal b = true := rfl
  have hscripted : (scripted (.int 1)).ExactClause := by
    intro p hp
    obtain rfl := List.mem_singleton.mp hp
    exact Value.exactName_text "n"
  have hnear : (near [entry "lat" (.int 1), entry "lon" (.int 0)]).ExactClause :=
    Fragment.proper_single "geo"
      (Mapping.distinctKeys_cons.mpr ⟨rfl, Mapping.distinctKeys_single "lon" (.int 0)⟩)
  have hclauses : ∀ v ∈ a.queries ++ a.filters ++ a.postFilters, v.ExactClause := by
    change ∀ v ∈ [scripted (.int 1), .map _, near _], v.ExactClause
    simp only [List.forall_mem_cons]
    exact ⟨hscripted, trivial, hnear, fun _ hv ↦ absurd hv List.not_mem_nil⟩
  have hcomparable : a.Comparable b := ⟨fun _ _ _ ↦ rfl, fun _ _ _ _ ↦ rfl, hclauses⟩
  have hd : a.compile = .ok d := rfl
  have he : b.compile = .ok e := rfl
  exact ⟨a, ha, b, hb, hequal, hcomparable, hd, he,
    (equal_documents operations others).1 a ha b hb hequal hcomparable d e hd he⟩

/--
A mode that is a number or a fraction, a strategy that is a number or a truth value, and a mapping
that stands for a pair, among the parameters of a script or as an end of a range: the criteria are
equal, the documents are not.
-/
theorem equal_criteria_of_other_documents :
    let session (mode strategy query : Value) : List Operation :=
      [.criteria {} (.map [entry "query_mode" mode, entry "strategy" strategy]),
        .update 0
          { storage := .queries, patch := .list [query, .map [entry "match_all" (.map [])]] },
        .update 0 { storage := .filters, patch := .node (.present "a") }]
    let one : Value := .real (.finite false (2 ^ 52) (-52))
    let plain : Value := .node (.present "b")
    let script (entries : Mapping) : Value := .node (.script "s" (.tuple [.map entries]))
    let range (bound other : Bound) (under behind : Value) : Value :=
      .node (.range "f" [⟨bound, .text other.name, .map under behind⟩])
    let pairs : List (List Operation × List Operation) :=
      [(session (.int 1) .null plain, session one .null plain),
        (session (.int 1) (.int 1) plain, session (.int 1) (.bool true) plain),
        (session (.int 1) .null (script [entry "a" (.int 1), entry "b" (.int 2)]),
          session (.int 1) .null (script [entry "b" (.int 2), entry "a" (.int 1)])),
        (session (.int 1) .null (range .gt .lt (.int 1) (.int 2)),
          session (.int 1) .null (range .lt .gt (.int 2) (.int 1)))]
    ∀ p ∈ pairs, ∃ a b d e, Session.run p.1 = [a] ∧ Session.run p.2 = [b] ∧ a.equal b = true ∧
      a.compile = .ok d ∧ b.compile = .ok e ∧ Value.equal (.map d) (.map e) = false := by
  intro session one plain script range pairs
  simp only [pairs, session, one, plain, script, range, List.forall_mem_cons]
  exact ⟨⟨_, _, _, _, rfl, rfl, rfl, rfl, rfl, rfl⟩, ⟨_, _, _, _, rfl, rfl, rfl, rfl, rfl, rfl⟩,
    ⟨_, _, _, _, rfl, rfl, rfl, rfl, rfl, rfl⟩, ⟨_, _, _, _, rfl, rfl, rfl, rfl, rfl, rfl⟩,
    fun _ h ↦ absurd h List.not_mem_nil⟩

end SearchCriteria.Session
