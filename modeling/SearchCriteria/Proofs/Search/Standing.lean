import SearchCriteria.Proofs.Search.Calling
import SearchCriteria.Proofs.Value.Named

/-!
# What calls stand for

`Call.Stands` tells, method by method, which update of the criteria a call stands for.  A call that
is read without a fault stands for the update that comes of it, and every call that stands for an
update is read without a fault, so whatever is refused before the criteria is looked at is refused
for the arguments alone.
-/

namespace SearchCriteria

open Mapping (entry)

/-! ## Parameters -/

namespace Parameters

variable {args values : List Value} {named : Mapping}

theorem length_fill {p : Parameters} {slots filled : Slots} {name : String} {v : Value}
    (h : p.fill slots name v = .ok filled) : filled.length = slots.length := by
  unfold Parameters.fill at h
  split at h
  · cases h
  · cases h
  · obtain rfl := Except.ok.inj h
    exact List.length_map _

theorem length_foldlM_fill {p : Parameters} {entries : List (String × Value)}
    {slots filled : Slots}
    (h : entries.foldlM (fun acc e ↦ p.fill acc e.1 e.2) slots = .ok filled) :
    filled.length = slots.length := by
  induction entries generalizing slots with
  | nil =>
    obtain rfl := Except.ok.inj h
    rfl
  | cons e entries ih =>
    rw [List.foldlM_cons] at h
    obtain ⟨next, hnext, h⟩ := bind_eq_ok.mp h
    rw [ih h, length_fill hnext]

/-- Every parameter has a value. -/
theorem length_of_bind {p : Parameters} (h : p.bind args named = .ok values) :
    values.length = p.names.length := by
  obtain ⟨entries, -, h⟩ := bind_eq_ok.mp h
  obtain ⟨filled, hfilled, h⟩ := bind_eq_ok.mp h
  have hlength := length_foldlM_fill hfilled
  split at h
  · cases h
  dsimp only at h
  split at h
  · cases h
  obtain rfl := Except.ok.inj h
  rw [List.length_map, List.length_drop, hlength, slots, List.length_append, List.length_map,
    List.length_map, List.length_zipIdx, Nat.add_sub_cancel_left]

/-- Without parameters there are no arguments, the receiver aside. -/
theorem eq_nil_of_bind {call : String}
    (h : bind { call, required := [] } args named = .ok values) : args = [] ∧ named = [] := by
  obtain ⟨entries, hentries, h⟩ := bind_eq_ok.mp h
  obtain ⟨filled, hfilled, h⟩ := bind_eq_ok.mp h
  constructor
  · split at h
    · cases h
    · rename_i hlength
      simpa [names] using hlength
  · rw [Mapping.eq_map_of_named hentries]
    cases entries with
    | nil => rfl
    | cons e entries =>
      rw [List.foldlM_cons] at hfilled
      obtain ⟨next, hnext, -⟩ := bind_eq_ok.mp hfilled
      by_cases he : "self" = e.1
      · simp [fill, slots, names, ← he] at hnext
      · simp [fill, slots, names, he] at hnext

end Parameters

namespace Call

/-- How the arguments are given to the parameters, those that may be left out behind the others. -/
def Takes (method : String) (required optional : List String) (args : List Value)
    (named : Mapping) (values : List Value) : Prop :=
  (parameters method required optional).bind args named = .ok values

/-! ## The table of calls -/

/-- A value under a name, unless it is left out. -/
def given (name : String) (v : Value) : Mapping := if v matches .null then [] else [entry name v]

/-- The scoring functions, by method and parameters, without their filters. -/
inductive Scores : String → List String → List String → List Value → Mapping → Prop
  | factor {v} : Scores "boost_factor" ["factor"] [] [v] [entry "boost_factor" v]
  | weight {v} : Scores "weight" ["value"] [] [v] [entry "weight" v]
  | random {seed} : Scores "random_score" ["seed"] [] [seed]
      [entry "random_score" (.map [entry "seed" seed])]
  | script {script params} (h : params.truthy = false) :
      Scores "script_score" ["script"] ["params"] [script, params]
        [entry "script_score" (.map [entry "script" script])]
  | scriptWith {script params bound} (h : params.truthy = true)
      (hbound : Mapping.ofValue params = .ok bound) :
      Scores "script_score" ["script"] ["params"] [script, params]
        [entry "script_score" (.map [entry "script" script, entry "params" (.map bound)])]
  | fieldValue {settings fields} (h : Mapping.ofValue settings = .ok fields) :
      Scores "field_value_factor" ["settings"] [] [settings]
        [entry "field_value_factor" (.map fields)]
  | decay {name field origin scale shift rate} (h : name ∈ ["gauss", "exp", "linear"])
      (hfield : field.unhashable? = Option.none) :
      Scores "decay" ["function", "field", "origin", "scale"] ["offset", "decay"]
        [.text name, field, origin, scale, shift, rate]
        [entry name (.map [(field, .map ([entry "origin" origin, entry "scale" scale] ++
          given "offset" shift ++ given "decay" rate))])]

/-- What a filter adds to a scoring function. -/
inductive Narrows : Value → Mapping → Prop
  | nothing : Narrows .null []
  | filter {clause fragment} (h : clause.clauseFragment = .ok fragment) :
      Narrows clause [entry "filter" (.map fragment)]

/-- The update that a method called with these arguments stands for. -/
inductive Stands : String → List Value → Mapping → Criteria.Update → Prop
  | appends {method storage values}
      (h : (method, storage) ∈ [("query", .queries), ("filter", .filters),
        ("post_filter", .postFilters), ("types", .types), ("only", .fields), ("order", .sort)]) :
      Stands method values [] { storage, patch := .list values }
  | replaces {method storage values}
      (h : (method, storage) ∈ [("only_exactly", .fields), ("reorder", .sort)]) :
      Stands method values [] { storage, patch := .list values, purge := some true }
  | mode {method args named v checked}
      (h : method ∈ ["query_mode", "filter_mode", "post_filter_mode"])
      (hv : Takes method ["value"] [] args named [v]) (hcheck : JoinMode.check v = .ok checked) :
      Stands method args named { storage := .options, patch := .map [entry method checked] }
  | option {method args named v} (h : method ∈ ["boost_mode", "score_mode", "strategy"])
      (hv : Takes method ["value"] [] args named [v]) :
      Stands method args named { storage := .options, patch := .map [entry method v] }
  | flag {method} (h : method ∈ ["none", "simple"]) :
      Stands method [] [] { storage := .options, patch := .map [entry method (.bool true)] }
  | count {method option args named v count}
      (h : (method, option) ∈ [("limit", "size"), ("offset", "from")])
      (hv : Takes method ["value"] [] args named [v]) (hcount : v.toInteger = .ok count) :
      Stands method args named
        { storage := .requestOptions, patch := .map [entry option (.int count)] }
  | request {options : List (String × Value)} (h : ∀ o ∈ options, o.1 ≠ "self") :
      Stands "request" [] (options.map fun o ↦ entry o.1 o.2)
        { storage := .requestOptions, patch := .map (options.map fun o ↦ entry o.1 o.2) }
  /-- One of these has two names. -/
  | extra {method own storage args named v}
      (h : (method, own, storage) ∈ [("facets", "facets", .facets),
        ("aggregations", "aggregations", .aggregations), ("aggs", "aggregations", .aggregations),
        ("suggest", "suggest", .suggest), ("script_fields", "script_fields", .scriptFields)])
      (hv : Takes own ["params"] [] args named [v]) :
      Stands method args named { storage, patch := v }
  | score {method required optional args named values function scope narrowing}
      (h : Scores method required optional values function)
      (hvalues : Takes method required (optional ++ ["filter"]) args named (values ++ [scope]))
      (hscope : Narrows scope narrowing) :
      Stands method args named
        { storage := .scores, patch := .list [.map (function ++ narrowing)] }

/-- A call is read: the method is found, it takes the arguments, and they are checked. -/
def read (method : String) (args : List Value) (named : Mapping) :
    Except Fault Criteria.Update := do
  let make ← ofMethod method
  let call ← make args named
  call.update

/-! ## Reading calls -/

variable {method : String} {args : List Value} {named : Mapping} {call : Call} {u : Criteria.Update}

theorem read_of_ok {make : Maker} (hmake : ofMethod method = .ok make)
    (hcall : make args named = .ok call) (hu : call.update = .ok u) :
    read method args named = .ok u :=
  bind_eq_ok.mpr ⟨make, hmake, bind_eq_ok.mpr ⟨call, hcall, hu⟩⟩

theorem ofMany_eq_ok {make : List Value → Call} (h : ofMany method make args named = .ok call) :
    named = [] ∧ call = make args := by
  obtain ⟨_, hbind, h⟩ := bind_eq_ok.mp h
  exact ⟨(Parameters.eq_nil_of_bind hbind).2, (Except.ok.inj h).symm⟩

theorem ofNothing_eq_ok {made : Call} (h : ofNothing method made args named = .ok call) :
    args = [] ∧ named = [] ∧ call = made := by
  obtain ⟨_, hbind, h⟩ := bind_eq_ok.mp h
  obtain ⟨hargs, hnamed⟩ := Parameters.eq_nil_of_bind hbind
  exact ⟨hargs, hnamed, (Except.ok.inj h).symm⟩

theorem ofOne_eq_ok {parameter : String} {make : Value → Call}
    (h : ofOne method parameter make args named = .ok call) :
    ∃ v, Takes method [parameter] [] args named [v] ∧ call = make v := by
  obtain ⟨values, hbind, h⟩ := bind_eq_ok.mp h
  obtain ⟨v, rfl⟩ := List.length_eq_one_iff.mp (Parameters.length_of_bind hbind)
  exact ⟨v, hbind, (Except.ok.inj h).symm⟩

theorem ofScore_eq_ok {parameter : String} {make : Value → Value → Call}
    (h : ofScore method parameter make args named = .ok call) :
    ∃ v scope, Takes method [parameter] ["filter"] args named [v, scope] ∧
      call = make v scope := by
  obtain ⟨values, hbind, h⟩ := bind_eq_ok.mp h
  match values, Parameters.length_of_bind hbind with
  | [v, scope], _ => exact ⟨v, scope, hbind, (Except.ok.inj h).symm⟩

theorem ofScriptScore_eq_ok (h : ofScriptScore args named = .ok call) :
    ∃ script params scope, Takes "script_score" ["script"] ["params", "filter"] args named
      [script, params, scope] ∧ call = scriptScore script params scope := by
  obtain ⟨values, hbind, h⟩ := bind_eq_ok.mp h
  match values, Parameters.length_of_bind hbind with
  | [script, params, scope], _ =>
    exact ⟨script, params, scope, hbind, (Except.ok.inj h).symm⟩

theorem ofDecay_eq_ok (h : ofDecay args named = .ok call) :
    ∃ function field origin scale shift rate scope,
      Takes "decay" ["function", "field", "origin", "scale"] ["offset", "decay", "filter"] args
        named [function, field, origin, scale, shift, rate, scope] ∧
      call = decay function field origin scale shift rate scope := by
  obtain ⟨values, hbind, h⟩ := bind_eq_ok.mp h
  match values, Parameters.length_of_bind hbind with
  | [function, field, origin, scale, shift, rate, scope], _ =>
    exact ⟨function, field, origin, scale, shift, rate, scope, hbind, (Except.ok.inj h).symm⟩

/-- Values are named by texts, and none by the name that is taken. -/
theorem ofNamed_eq_ok (h : ofNamed method args named = .ok call) :
    ∃ options : List (String × Value), args = [] ∧ named = (options.map fun o ↦ entry o.1 o.2) ∧
      (∀ o ∈ options, o.1 ≠ "self") ∧ call = Call.request named := by
  obtain ⟨options, hoptions, h⟩ := bind_eq_ok.mp h
  obtain ⟨_, hbind, h⟩ := bind_eq_ok.mp h
  obtain ⟨hnamed, hself⟩ := namedValues_eq_ok_iff.mp hoptions
  refine ⟨options, (Parameters.eq_nil_of_bind hbind).1, hnamed, hself, ?_⟩
  rw [← Except.ok.inj h]
  exact congrArg Call.request hnamed.symm

/-! ## What is read -/

theorem score_of_ne_null {scope : Value} (h : scope ≠ .null) (function : Mapping) :
    score function scope = (do
      let fragment ← scope.clauseFragment
      return { storage := .scores
               patch := .list [.map (function.addSome "filter" (some (.map fragment)))] }) := by
  unfold score
  dsimp only
  split
  · exact absurd rfl h
  · cases scope.clauseFragment <;> rfl

/-- A scoring function of one name takes the fragment of its filter beside it. -/
theorem score_eq_ok_iff {name : String} (hname : name ≠ "filter") {body scope : Value} :
    score [entry name body] scope = .ok u ↔ ∃ narrowing, Narrows scope narrowing ∧
      u = { storage := .scores, patch := .list [.map (entry name body :: narrowing)] } := by
  by_cases hscope : scope = .null
  · subst hscope
    constructor
    · intro h
      exact ⟨[], .nothing, (Except.ok.inj h).symm⟩
    · rintro ⟨narrowing, hnarrows, rfl⟩
      cases hnarrows with
      | nothing => rfl
      | filter h => cases h
  · have habsent : Mapping.getText? [entry name body] "filter" = Option.none := by
      rw [Mapping.getText?_cons_entry, if_neg hname, Mapping.getText?_nil]
    rw [score_of_ne_null hscope]
    simp only [Mapping.addSome_of_absent habsent]
    constructor
    · intro h
      obtain ⟨fragment, hfragment, h⟩ := bind_eq_ok.mp h
      exact ⟨_, .filter hfragment, (Except.ok.inj h).symm⟩
    · rintro ⟨narrowing, hnarrows, rfl⟩
      cases hnarrows with
      | nothing => exact absurd rfl hscope
      | filter h => exact bind_eq_ok.mpr ⟨_, h, rfl⟩

/-- The body of a script score, with its parameters if any are given. -/
theorem scores_of_scriptScoreBody {script params : Value} {body : Mapping}
    (h : scriptScoreBody script params = .ok body) :
    Scores "script_score" ["script"] ["params"] [script, params]
      [entry "script_score" (.map body)] := by
  unfold scriptScoreBody at h
  dsimp only at h
  split at h
  · rename_i htruthy
    obtain ⟨bound, hbound, h⟩ := bind_eq_ok.mp h
    obtain rfl := Except.ok.inj h
    exact .scriptWith htruthy hbound
  · rename_i htruthy
    obtain rfl := Except.ok.inj h
    exact .script (Bool.eq_false_iff.mpr htruthy)

theorem decayName?_eq_some_iff {function : Value} {name : String} :
    decayName? function = some name ↔
      function = .text name ∧ name ∈ ["gauss", "exp", "linear"] := by
  constructor
  · intro h
    cases function with
    | text s =>
      have hfind : Fault.decayNames.find? (· == s) = some name := h
      have hname := List.find?_some hfind
      exact ⟨congrArg Value.text (beq_iff_eq.mp hname).symm, List.mem_of_find?_eq_some hfind⟩
    | _ => cases h
  · rintro ⟨rfl, h⟩
    simp only [List.mem_cons, List.not_mem_nil, or_false] at h
    rcases h with rfl | rfl | rfl <;> rfl

theorem scores_of_decayFunction {function field origin scale shift rate : Value} {decays : Mapping}
    (h : decayFunction function field (decayParams origin scale shift rate) = .ok decays) :
    ∃ name body, decays = [entry name body] ∧ name ≠ "filter" ∧
      Scores "decay" ["function", "field", "origin", "scale"] ["offset", "decay"]
        [function, field, origin, scale, shift, rate] decays := by
  unfold decayFunction at h
  split at h
  · cases h
  · rename_i name hname
    obtain ⟨rfl, hmem⟩ := decayName?_eq_some_iff.mp hname
    obtain ⟨⟨⟩, hfield, h⟩ := bind_eq_ok.mp h
    obtain rfl := Except.ok.inj h
    refine ⟨name, _, rfl, ?_, .decay hmem (Value.requireHashable_eq_ok_iff.mp hfield)⟩
    rintro rfl
    exact absurd hmem (by decide)

/-- A call that is read stands for what comes of it. -/
theorem stands_of_read (h : read method args named = .ok u) : Stands method args named u := by
  obtain ⟨make, hmake, h⟩ := bind_eq_ok.mp h
  obtain ⟨call, hcall, hu⟩ := bind_eq_ok.mp h
  unfold ofMethod at hmake
  -- the cases are the methods in the order of `ofMethod`
  split at hmake <;> first
    | obtain rfl := Except.ok.inj hmake
    | cases hmake
  -- clauses, types, fields and keys to sort by
  case h_1 | h_2 | h_3 | h_12 | h_13 | h_15 =>
    obtain ⟨rfl, rfl⟩ := ofMany_eq_ok hcall
    obtain rfl := Except.ok.inj hu
    exact .appends (by decide)
  case h_14 | h_16 =>
    obtain ⟨rfl, rfl⟩ := ofMany_eq_ok hcall
    obtain rfl := Except.ok.inj hu
    exact .replaces (by decide)
  -- join modes, then the options that are taken as they are
  case h_4 | h_5 | h_6 =>
    obtain ⟨v, hv, rfl⟩ := ofOne_eq_ok hcall
    obtain ⟨checked, hcheck, rfl⟩ := setMode_eq_ok_iff.mp hu
    exact .mode (by decide) hv hcheck
  case h_7 | h_8 | h_9 =>
    obtain ⟨v, hv, rfl⟩ := ofOne_eq_ok hcall
    obtain rfl := Except.ok.inj hu
    exact .option (by decide) hv
  case h_10 | h_11 =>
    obtain ⟨rfl, rfl, rfl⟩ := ofNothing_eq_ok hcall
    obtain rfl := Except.ok.inj hu
    exact .flag (by decide)
  -- request options
  case h_17 | h_18 =>
    obtain ⟨v, hv, rfl⟩ := ofOne_eq_ok hcall
    obtain ⟨count, hcount, rfl⟩ := setCount_eq_ok_iff.mp hu
    exact .count (by decide) hv hcount
  case h_19 =>
    obtain ⟨options, rfl, rfl, hself, rfl⟩ := ofNamed_eq_ok hcall
    obtain rfl := Except.ok.inj hu
    exact .request hself
  -- facets, aggregations and the other sections
  case h_20 | h_21 | h_22 | h_23 | h_24 =>
    obtain ⟨v, hv, rfl⟩ := ofOne_eq_ok hcall
    obtain rfl := Except.ok.inj hu
    exact .extra (by decide) hv
  -- scoring functions
  case h_25 =>
    obtain ⟨v, scope, hv, rfl⟩ := ofScore_eq_ok hcall
    obtain ⟨narrowing, hnarrows, rfl⟩ := (score_eq_ok_iff (by decide)).mp hu
    exact .score .factor hv hnarrows
  case h_26 =>
    obtain ⟨v, scope, hv, rfl⟩ := ofScore_eq_ok hcall
    obtain ⟨narrowing, hnarrows, rfl⟩ := (score_eq_ok_iff (by decide)).mp hu
    exact .score .weight hv hnarrows
  case h_27 =>
    obtain ⟨v, scope, hv, rfl⟩ := ofScore_eq_ok hcall
    obtain ⟨narrowing, hnarrows, rfl⟩ := (score_eq_ok_iff (by decide)).mp hu
    exact .score .random hv hnarrows
  case h_28 =>
    obtain ⟨script, params, scope, hvalues, rfl⟩ := ofScriptScore_eq_ok hcall
    obtain ⟨body, hbody, hu⟩ := bind_eq_ok.mp hu
    obtain ⟨narrowing, hnarrows, rfl⟩ := (score_eq_ok_iff (by decide)).mp hu
    exact .score (scores_of_scriptScoreBody hbody) hvalues hnarrows
  case h_29 =>
    obtain ⟨settings, scope, hv, rfl⟩ := ofScore_eq_ok hcall
    obtain ⟨fields, hfields, hu⟩ := bind_eq_ok.mp hu
    obtain ⟨narrowing, hnarrows, rfl⟩ := (score_eq_ok_iff (by decide)).mp hu
    exact .score (.fieldValue hfields) hv hnarrows
  case h_30 =>
    obtain ⟨function, field, origin, scale, shift, rate, scope, hvalues, rfl⟩ :=
      ofDecay_eq_ok hcall
    obtain ⟨decays, hdecays, hu⟩ := bind_eq_ok.mp hu
    obtain ⟨name, body, rfl, hname, hscores⟩ := scores_of_decayFunction hdecays
    obtain ⟨narrowing, hnarrows, rfl⟩ := (score_eq_ok_iff hname).mp hu
    exact .score hscores hvalues hnarrows
  -- merging takes no values, and the properties are no methods
  case h_31 => exact absurd hcall ofMerge_ne_ok
  case h_32 | h_33 => cases hcall

theorem read_of_takes {own parameter : String} {make : Value → Call} {v : Value}
    (hmake : ofMethod method = .ok (ofOne own parameter make))
    (hv : Takes own [parameter] [] args named [v]) (hu : (make v).update = .ok u) :
    read method args named = .ok u :=
  read_of_ok hmake (bind_eq_ok.mpr ⟨[v], hv, rfl⟩) hu

/-- A method that takes a value and a filter reads what it scores by. -/
theorem read_of_takes_scope {own parameter name : String} {make : Value → Value → Call}
    {v scope body : Value} {narrowing : Mapping} (hname : name ≠ "filter")
    (hmake : ofMethod method = .ok (ofScore own parameter make))
    (hv : Takes own [parameter] ["filter"] args named [v, scope])
    (hupdate : (make v scope).update = score [entry name body] scope)
    (hscope : Narrows scope narrowing) :
    read method args named =
      .ok { storage := .scores, patch := .list [.map (entry name body :: narrowing)] } := by
  refine read_of_ok hmake (bind_eq_ok.mpr ⟨[v, scope], hv, rfl⟩) ?_
  exact hupdate.trans ((score_eq_ok_iff hname).mpr ⟨narrowing, hscope, rfl⟩)

theorem read_of_scores {required optional : List String} {values : List Value}
    {function narrowing : Mapping} {scope : Value}
    (h : Scores method required optional values function)
    (hvalues : Takes method required (optional ++ ["filter"]) args named (values ++ [scope]))
    (hscope : Narrows scope narrowing) :
    read method args named =
      .ok { storage := .scores, patch := .list [.map (function ++ narrowing)] } := by
  cases h with
  | factor | weight | random => exact read_of_takes_scope (by decide) rfl hvalues rfl hscope
  | @script script params h =>
    have hbody : scriptScoreBody script params = .ok [entry "script" script] := by
      rw [scriptScoreBody, h]
      rfl
    refine read_of_ok rfl (bind_eq_ok.mpr ⟨[script, params, scope], hvalues, rfl⟩) ?_
    refine bind_eq_ok.mpr ⟨_, hbody, ?_⟩
    exact (score_eq_ok_iff (by decide)).mpr ⟨narrowing, hscope, rfl⟩
  | @scriptWith script params bound h hbound =>
    have hbody : scriptScoreBody script params =
        .ok [entry "script" script, entry "params" (.map bound)] := by
      simp only [scriptScoreBody, h, if_true, hbound]
      rfl
    refine read_of_ok rfl (bind_eq_ok.mpr ⟨[script, params, scope], hvalues, rfl⟩) ?_
    refine bind_eq_ok.mpr ⟨_, hbody, ?_⟩
    exact (score_eq_ok_iff (by decide)).mpr ⟨narrowing, hscope, rfl⟩
  | @fieldValue settings fields h =>
    refine read_of_ok rfl (bind_eq_ok.mpr ⟨[settings, scope], hvalues, rfl⟩) ?_
    refine bind_eq_ok.mpr ⟨fields, h, ?_⟩
    exact (score_eq_ok_iff (by decide)).mpr ⟨narrowing, hscope, rfl⟩
  | @decay name field origin scale shift rate h hfield =>
    have hname : name ≠ "filter" := by
      rintro rfl
      exact absurd h (by decide)
    have hdecays : decayFunction (.text name) field (decayParams origin scale shift rate) =
        .ok [entry name (.map [(field, .map (decayParams origin scale shift rate))])] := by
      simp only [decayFunction, decayName?_eq_some_iff.mpr ⟨rfl, h⟩,
        Value.requireHashable_eq_ok_iff.mpr hfield]
      rfl
    refine read_of_ok rfl (bind_eq_ok.mpr ⟨_, hvalues, rfl⟩) ?_
    refine bind_eq_ok.mpr ⟨_, hdecays, ?_⟩
    exact (score_eq_ok_iff hname).mpr ⟨narrowing, hscope, rfl⟩

/-- A call that stands for an update is read without a fault. -/
theorem Stands.read_eq (h : Stands method args named u) : read method args named = .ok u := by
  cases h with
  | appends h =>
    simp only [List.mem_cons, List.not_mem_nil, or_false, Prod.mk.injEq] at h
    rcases h with ⟨rfl, rfl⟩ | ⟨rfl, rfl⟩ | ⟨rfl, rfl⟩ | ⟨rfl, rfl⟩ | ⟨rfl, rfl⟩ | ⟨rfl, rfl⟩ <;>
      rfl
  | replaces h =>
    simp only [List.mem_cons, List.not_mem_nil, or_false, Prod.mk.injEq] at h
    rcases h with ⟨rfl, rfl⟩ | ⟨rfl, rfl⟩ <;> rfl
  | mode h hv hcheck =>
    simp only [List.mem_cons, List.not_mem_nil, or_false] at h
    rcases h with rfl | rfl | rfl <;>
      exact read_of_takes rfl hv (setMode_eq_ok_iff.mpr ⟨_, hcheck, rfl⟩)
  | option h hv =>
    simp only [List.mem_cons, List.not_mem_nil, or_false] at h
    rcases h with rfl | rfl | rfl <;> exact read_of_takes rfl hv rfl
  | flag h =>
    simp only [List.mem_cons, List.not_mem_nil, or_false] at h
    rcases h with rfl | rfl <;> rfl
  | count h hv hcount =>
    simp only [List.mem_cons, List.not_mem_nil, or_false, Prod.mk.injEq] at h
    rcases h with ⟨rfl, rfl⟩ | ⟨rfl, rfl⟩ <;>
      exact read_of_takes rfl hv (setCount_eq_ok_iff.mpr ⟨_, hcount, rfl⟩)
  | @request options h =>
    have hbind : (parameters "request" [] []).bind [] [] = .ok [] := rfl
    refine read_of_ok rfl (bind_eq_ok.mpr ⟨options, ?_, bind_eq_ok.mpr ⟨[], hbind, rfl⟩⟩) rfl
    exact namedValues_eq_ok_iff.mpr ⟨rfl, h⟩
  | extra h hv =>
    simp only [List.mem_cons, List.not_mem_nil, or_false, Prod.mk.injEq] at h
    rcases h with ⟨rfl, rfl, rfl⟩ | ⟨rfl, rfl, rfl⟩ | ⟨rfl, rfl, rfl⟩ | ⟨rfl, rfl, rfl⟩ |
      ⟨rfl, rfl, rfl⟩ <;> exact read_of_takes rfl hv rfl
  | score h hvalues hscope => exact read_of_scores h hvalues hscope

/-- A call is read exactly as what it stands for. -/
theorem read_eq_ok_iff : read method args named = .ok u ↔ Stands method args named u :=
  ⟨stands_of_read, Stands.read_eq⟩

end Call

end SearchCriteria
