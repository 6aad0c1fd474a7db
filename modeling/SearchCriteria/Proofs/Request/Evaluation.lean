import SearchCriteria.Proofs.Join
import SearchCriteria.Proofs.Value.Named
import SearchCriteria.Request

/-!
# Truth of fragments

An evaluation tells which fragments hold of a document.  It may judge the leaves as it likes, but reads
the wrappers that joins and requests are made of as what they are for: conjunctions, disjunctions,
negations and counts of clauses.  So a join means what its mode says of the clauses that count.
-/

namespace SearchCriteria

open Mapping (entry ofNamed)

/-- A judgement of fragments that gives every wrapper its meaning. -/
structure Evaluation where
  /-- The fragments that hold. -/
  holds : Value → Bool
  /-- Whether as many clauses hold as a mode asks for. -/
  enough : Value → List Bool → Bool
  holds_and (side : JoinSide) (clauses : List Value) :
    holds (.map [entry "and" (.map [entry side.name (.list clauses)])]) = clauses.all holds
  holds_or (side : JoinSide) (clauses : List Value) :
    holds (.map [entry "or" (.map [entry side.name (.list clauses)])]) = clauses.any holds
  holds_must (clauses : List Value) :
    holds (.map [entry "bool" (.map [entry "must" (.list clauses)])]) = clauses.all holds
  holds_should (clauses : List Value) :
    holds (.map [entry "bool" (.map [entry "should" (.list clauses)])]) = clauses.any holds
  holds_mustNot (clauses : List Value) :
    holds (.map [entry "bool" (.map [entry "must_not" (.list clauses)])]) =
      clauses.all fun v ↦ !holds v
  holds_atLeast (mode : Value) (clauses : List Value) :
    holds (.map [entry "bool" (.map
      [entry "should" (.list clauses), entry "minimum_should_match" mode])]) =
        enough mode (clauses.map holds)
  holds_bestOf (clauses : List Value) (tieBreaker : Option Value) :
    holds (.map [entry "dis_max" (.map (ofNamed
      [("queries", some (.list clauses)), ("tie_breaker", tieBreaker)]))]) = clauses.any holds
  holds_filtered (q f : Value) (strategy : Option Value) :
    holds (.map [entry "filtered" (.map (ofNamed
      [("query", some q), ("filter", some f), ("strategy", strategy)]))]) = (holds q && holds f)
  /-- A part that is absent from a scored query bars nothing. -/
  holds_functionScore (parts : Mapping) :
    holds (.map [entry "function_score" (.map parts)]) =
      ((parts.getText? "query").all holds && (parts.getText? "filter").all holds)
  holds_matchAll : holds (.map [entry "match_all" (.map [])]) = true

namespace Evaluation

variable (E : Evaluation)

/-! ## Joins -/

/-- What a mode makes of the truth of the clauses that it wraps. -/
def wrapped (side : JoinSide) (mode : Value) (truths : List Bool) : Bool :=
  match JoinMode.ofValue? mode, side with
  | some .and, _ | some .must, _ => truths.all id
  | some .or, _ | some .should, _ => truths.any id
  | some .mustNot, _ => truths.all (!·)
  | some .disMax, .queries => truths.any id
  | some .disMax, .filters => E.enough mode truths
  | none, .queries => if mode matches .real _ then truths.any id else E.enough mode truths
  | none, .filters => E.enough mode truths

/-- No clauses bar nothing, and a lone one decides alone, though it may be there to be negated. -/
def joined (side : JoinSide) (mode : Value) : List Bool → Bool
  | [] => true
  | [truth] => if mode.isText "must_not" then !truth else truth
  | truths => E.wrapped side mode truths

theorem holds_counted (side : JoinSide) {mode : Value} (h : JoinMode.ofValue? mode = none)
    (clauses : List Value) :
    E.holds (.map (Join.counted side mode clauses)) =
      E.wrapped side mode (clauses.map E.holds) := by
  have hmany : E.holds (.map (Join.atLeast mode clauses)) =
      E.enough mode (clauses.map E.holds) := E.holds_atLeast mode clauses
  have hbest : E.holds (.map (Join.bestOf (some mode) clauses)) =
      (clauses.map E.holds).any id := by
    rw [List.any_map]
    exact E.holds_bestOf clauses (some mode)
  cases side with
  | filters => cases mode <;> simp only [wrapped, h] <;> exact hmany
  | queries =>
    cases mode with
    | real =>
      simp only [wrapped, h]
      exact hbest
    | _ =>
      simp only [wrapped, h]
      exact hmany

/-- A wrapper means what its mode makes of the clauses in it. -/
theorem holds_wrap {side : JoinSide} {mode : Value} {clauses : List Value} {m : Mapping}
    (h : Join.wrap side mode clauses = .ok m) :
    E.holds (.map m) = E.wrapped side mode (clauses.map E.holds) := by
  cases hmode : JoinMode.ofValue? mode with
  | none =>
    rw [Join.wrap_of_unnamed hmode] at h
    obtain ⟨-, -, hm⟩ := bind_eq_ok.mp h
    obtain rfl := Except.ok.inj hm
    exact E.holds_counted side hmode clauses
  | some name =>
    simp only [Join.wrap, hmode] at h
    simp only [wrapped, hmode]
    cases name with
    | and =>
      obtain rfl := Except.ok.inj h
      rw [List.all_map]
      exact E.holds_and side clauses
    | or =>
      obtain rfl := Except.ok.inj h
      rw [List.any_map]
      exact E.holds_or side clauses
    | must =>
      obtain rfl := Except.ok.inj h
      rw [List.all_map]
      exact E.holds_must clauses
    | should =>
      obtain rfl := Except.ok.inj h
      rw [List.any_map]
      exact E.holds_should clauses
    | mustNot =>
      obtain rfl := Except.ok.inj h
      change _ = (clauses.map E.holds).all (!·)
      rw [List.all_map]
      exact E.holds_mustNot clauses
    | disMax =>
      cases side with
      | queries =>
        obtain rfl := Except.ok.inj h
        rw [List.any_map]
        exact E.holds_bestOf clauses none
      | filters =>
        obtain rfl := Except.ok.inj h
        exact E.holds_atLeast mode clauses

/-- What comes of a join means what the mode says of the clauses that count; nothing bars nothing. -/
theorem holds_joins {side : JoinSide} {mode : Value} {fragments : List Value}
    {result : Option Value} (h : Join.Joins side mode fragments result) :
    result.all E.holds = E.joined side mode ((Join.present fragments).map E.holds) := by
  cases h with
  | nothing h =>
    rw [h]
    rfl
  | @lone v h hmode =>
    have hnot : ¬ mode.isText "must_not" = true := Bool.not_eq_true _ ▸ hmode
    rw [h]
    exact (if_neg hnot).symm
  | @several m hne hlone hwrap =>
    rw [Option.all_some, E.holds_wrap hwrap]
    cases hpresent : Join.present fragments with
    | nil => exact absurd hpresent hne
    | cons x xs =>
      cases xs with
      | cons => rfl
      | nil =>
        -- the wrapper is there for the negation
        have hnot : mode.isText "must_not" = true := hlone x hpresent
        obtain rfl : mode = .text "must_not" := by
          cases mode with
          | text s => exact congrArg Value.text (eq_of_beq hnot)
          | _ => cases hnot
        simp [wrapped, joined, show JoinMode.ofValue? (.text "must_not") = some .mustNot from rfl]

theorem joined_and (side : JoinSide) (truths : List Bool) :
    E.joined side (.text "and") truths = truths.all id := by
  match truths with
  | [] => rfl
  | [truth] => simp [joined]
  | _ :: _ :: _ => rfl

theorem joined_or (side : JoinSide) {truths : List Bool} (h : truths ≠ []) :
    E.joined side (.text "or") truths = truths.any id := by
  match truths with
  | [] => exact absurd rfl h
  | [truth] => simp [joined]
  | _ :: _ :: _ => rfl

/-! ## Evaluations from leaves -/

/-- How the parts of a wrapper decide it. -/
inductive Connective where
  | all | any | none
  | atLeast (mode : Value)

/-- What a wrapper of the given name is for, and what it wraps. -/
def wrapper? (body : Mapping) : String → Option (Connective × List Value)
  | "and" => match body with
    | [(.text _, .list clauses)] => some (.all, clauses)
    | _ => none
  | "or" => match body with
    | [(.text _, .list clauses)] => some (.any, clauses)
    | _ => none
  | "bool" => match body with
    | [(.text "must", .list clauses)] => some (.all, clauses)
    | [(.text "should", .list clauses)] => some (.any, clauses)
    | [(.text "must_not", .list clauses)] => some (.none, clauses)
    | [(.text "should", .list clauses), (.text "minimum_should_match", mode)] =>
      some (.atLeast mode, clauses)
    | _ => none
  | "dis_max" => match body with
    | (.text "queries", .list clauses) :: _ => some (.any, clauses)
    | _ => none
  | "filtered" => match body with
    | (.text "query", q) :: (.text "filter", f) :: _ => some (.all, [q, f])
    | _ => none
  | "function_score" =>
    some (.all, (body.getText? "query").toList ++ (body.getText? "filter").toList)
  | "match_all" => some (.all, [])
  | _ => none

/-- The parts of a wrapper are values in its body, or items of a list there. -/
theorem mem_of_wrapper? {body : Mapping} {name : String} {k : Connective} {parts : List Value}
    (h : wrapper? body name = some (k, parts)) {v : Value} (hv : v ∈ parts) :
    ∃ e ∈ body, e.2 = v ∨ ∃ clauses, e.2 = .list clauses ∧ v ∈ clauses := by
  have hlist : ∀ {key clauses} {rest : Mapping}, v ∈ clauses → ∃ e ∈ (key, .list clauses) :: rest,
      e.2 = v ∨ ∃ clauses, e.2 = .list clauses ∧ v ∈ clauses := fun hmem ↦
    ⟨_, List.mem_cons_self, .inr ⟨_, rfl, hmem⟩⟩
  unfold wrapper? at h
  split at h
  case h_5 =>
    split at h
    · cases h
      rcases List.mem_cons.mp hv with rfl | hv
      · exact ⟨_, List.mem_cons_self, .inl rfl⟩
      · obtain rfl := List.mem_singleton.mp hv
        exact ⟨_, List.mem_cons_of_mem _ List.mem_cons_self, .inl rfl⟩
    · cases h
  case h_6 =>
    cases h
    have hget : ∀ {name}, v ∈ (body.getText? name).toList → ∃ e ∈ body, e.2 = v := by
      intro name hmem
      obtain ⟨e, he, -, hvalue⟩ := Association.exists_mem_of_get? (Option.mem_toList.mp hmem)
      exact ⟨e, he, hvalue⟩
    obtain ⟨e, he, hvalue⟩ := (List.mem_append.mp hv).elim hget hget
    exact ⟨e, he, .inl hvalue⟩
  case h_7 =>
    cases h
    cases hv
  case h_8 => cases h
  all_goals
    split at h
    all_goals first
      | cases h
        exact hlist hv
      | cases h

theorem sizeOf_lt_of_wrapper? {body : Mapping} {name : String} {k : Connective}
    {parts : List Value} (h : wrapper? body name = some (k, parts)) {v : Value} (hv : v ∈ parts) :
    sizeOf v < sizeOf body := by
  obtain ⟨⟨key, value⟩, he, hvalue⟩ := mem_of_wrapper? h hv
  have hentry : sizeOf (key, value) < sizeOf body := List.sizeOf_lt_of_mem he
  have hpair : sizeOf (key, value) = 1 + sizeOf key + sizeOf value := rfl
  rcases hvalue with hvalue | ⟨clauses, hvalue, hmem⟩
  · obtain rfl : value = v := hvalue
    omega
  · obtain rfl : value = .list clauses := hvalue
    have hclause : sizeOf v < sizeOf clauses := List.sizeOf_lt_of_mem hmem
    have hlist : sizeOf (Value.list clauses) = 1 + sizeOf clauses := Value.list.sizeOf_spec _
    omega

/-- What a fragment with one key is for, and what it wraps. -/
def reading? : Value → Option (Connective × List Value)
  | .map [(.text name, .map body)] => wrapper? body name
  | _ => none

theorem sizeOf_lt_of_reading? {v : Value} {k : Connective} {parts : List Value}
    (h : reading? v = some (k, parts)) {p : Value} (hp : p ∈ parts) : sizeOf p < sizeOf v := by
  unfold reading? at h
  split at h
  · have hbody := sizeOf_lt_of_wrapper? h hp
    simp only [Value.map.sizeOf_spec, List.cons.sizeOf_spec, Prod.mk.sizeOf_spec]
    omega
  · cases h

/-- Whether a connective is satisfied by the truth of its parts. -/
def Connective.met (enough : Value → List Bool → Bool) (truths : List Bool) : Connective → Bool
  | .all => truths.all id
  | .any => truths.any id
  | .none => truths.all (!·)
  | .atLeast mode => enough mode truths

/-- Fragments that wrap nothing are judged as leaves. -/
def judge (leaf : Value → Bool) (enough : Value → List Bool → Bool) (v : Value) : Bool :=
  match _h : reading? v with
  | none => leaf v
  | some (k, parts) => k.met enough (parts.attach.map fun p ↦ judge leaf enough p.1)
termination_by sizeOf v
decreasing_by exact sizeOf_lt_of_reading? ‹_› p.2

theorem judge_of_reading {v : Value} {k : Connective} {parts : List Value}
    (h : reading? v = some (k, parts)) (leaf : Value → Bool) (enough : Value → List Bool → Bool) :
    judge leaf enough v = k.met enough (parts.map (judge leaf enough)) := by
  rw [judge]
  split
  · rename_i hnone
    rw [h] at hnone
    cases hnone
  · rename_i hsome
    rw [h] at hsome
    cases hsome
    rw [List.map_attach_eq_pmap, List.pmap_eq_map]

/-- Any judgement of the leaves, and any counting of clauses, makes an evaluation. -/
def ofLeaves (leaf : Value → Bool) (enough : Value → List Bool → Bool) : Evaluation where
  holds := judge leaf enough
  enough := enough
  holds_and side clauses := by
    rw [judge_of_reading (k := .all) (by cases side <;> rfl), Connective.met, List.all_map]
    rfl
  holds_or side clauses := by
    rw [judge_of_reading (k := .any) (by cases side <;> rfl), Connective.met, List.any_map]
    rfl
  holds_must clauses := by
    rw [judge_of_reading (k := .all) rfl, Connective.met, List.all_map]
    rfl
  holds_should clauses := by
    rw [judge_of_reading (k := .any) rfl, Connective.met, List.any_map]
    rfl
  holds_mustNot clauses := by
    rw [judge_of_reading (k := .none) rfl, Connective.met, List.all_map]
    rfl
  holds_atLeast mode clauses := judge_of_reading (k := .atLeast mode) rfl leaf enough
  holds_bestOf clauses tieBreaker := by
    rw [judge_of_reading (k := .any) (by cases tieBreaker <;> rfl), Connective.met, List.any_map]
    rfl
  holds_filtered q f strategy := by
    rw [judge_of_reading (k := .all) (by cases strategy <;> rfl)]
    simp [Connective.met]
  holds_functionScore parts := by
    rw [judge_of_reading (k := .all) rfl]
    cases parts.getText? "query" <;> cases parts.getText? "filter" <;> simp [Connective.met]
  holds_matchAll := by
    rw [judge_of_reading (k := .all) rfl]
    rfl

end Evaluation

end SearchCriteria
