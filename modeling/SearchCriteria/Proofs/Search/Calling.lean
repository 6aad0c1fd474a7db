import SearchCriteria.Proofs.Expression.Building
import SearchCriteria.Search.Call

/-!
# What calls are made of

Matching arguments with parameters makes no values of its own: whatever is in a call was given to it,
by place or by name, or stands as null for what was left out.
-/

namespace SearchCriteria

variable {args : List Value} {named : Mapping} {v : Value} {call : Call}

/-- The value is an argument, by place or by name, or null. -/
def Given (args : List Value) (named : Mapping) (v : Value) : Prop :=
  v ∈ args ∨ v ∈ named.map Prod.snd ∨ v = .null

theorem Given.null : Given args named .null := .inr (.inr rfl)

/-- A property of null and of everything that is given is one of every value among those. -/
theorem Given.of_forall {P : Value → Prop} (h : Given args named v) (hargs : ∀ v ∈ args, P v)
    (hnamed : ∀ entry ∈ named, P entry.2) (hnull : P .null) : P v := by
  rcases h with h | h | rfl
  · exact hargs v h
  · obtain ⟨entry, hentry, rfl⟩ := List.mem_map.mp h
    exact hnamed entry hentry
  · exact hnull

theorem given_of_mem_named {entries : List (String × Value)} (h : named.named = .ok entries)
    {e : String × Value} (he : e ∈ entries) : Given args named e.2 := by
  refine .inr (.inl ?_)
  rw [Mapping.eq_map_of_named h, List.map_map]
  exact List.mem_map_of_mem he

theorem namedValues_eq_ok {name taken : String} {entries : Lookups}
    (h : namedValues name taken named = .ok entries) : named.named = .ok entries := by
  obtain ⟨found, hfound, h⟩ := bind_eq_ok.mp h
  split at h
  · cases h
  · rw [hfound]
    exact h

/-! ## Matching arguments with parameters -/

namespace Parameters

/-- The parameters that are filled are filled with what was given. -/
def Filled (args : List Value) (named : Mapping) (slots : Slots) : Prop :=
  ∀ slot ∈ slots, ∀ v, slot.2 = some v → Given args named v

theorem filled_slots (p : Parameters) : Filled args named (p.slots args) := by
  intro slot hslot v hv
  rcases List.mem_append.mp hslot with hslot | hslot
  · obtain ⟨_, -, rfl⟩ := List.mem_map.mp hslot
    obtain rfl := Option.some.inj hv
    exact .null
  · obtain ⟨_, -, rfl⟩ := List.mem_map.mp hslot
    exact .inl (List.mem_of_getElem? hv)

theorem Filled.fill {p : Parameters} {slots filled : Slots} {name : String}
    (hslots : Filled args named slots) (hv : Given args named v)
    (h : p.fill slots name v = .ok filled) : Filled args named filled := by
  unfold Parameters.fill at h
  split at h
  · cases h
  · cases h
  · obtain rfl := Except.ok.inj h
    intro slot hslot w hw
    obtain ⟨old, hold, rfl⟩ := List.mem_map.mp hslot
    split at hw
    · obtain rfl := Option.some.inj hw
      exact hv
    · exact hslots old hold w hw

theorem Filled.foldlM_fill {p : Parameters} {entries : List (String × Value)} {slots filled : Slots}
    (hslots : Filled args named slots) (hentries : ∀ e ∈ entries, Given args named e.2)
    (h : entries.foldlM (fun acc e ↦ p.fill acc e.1 e.2) slots = .ok filled) :
    Filled args named filled := by
  induction entries generalizing slots with
  | nil =>
    obtain rfl := Except.ok.inj h
    exact hslots
  | cons e entries ih =>
    obtain ⟨he, hentries⟩ := List.forall_mem_cons.mp hentries
    rw [List.foldlM_cons] at h
    obtain ⟨next, hnext, h⟩ := bind_eq_ok.mp h
    exact ih (hslots.fill he hnext) hentries h

/-- The values of the parameters are what was given. -/
theorem given_of_mem_bind {p : Parameters} {values : List Value}
    (h : p.bind args named = .ok values) : ∀ v ∈ values, Given args named v := by
  intro v hv
  obtain ⟨entries, hentries, h⟩ := bind_eq_ok.mp h
  obtain ⟨filled, hfilled, h⟩ := bind_eq_ok.mp h
  have hgiven : Filled args named filled :=
    (filled_slots p).foldlM_fill (fun _ ↦ given_of_mem_named hentries) hfilled
  split at h
  · cases h
  dsimp only at h
  split at h
  · cases h
  obtain rfl := Except.ok.inj h
  obtain ⟨slot, hslot, rfl⟩ := List.mem_map.mp hv
  cases hvalue : slot.2 with
  | none => exact .null
  | some w => exact hgiven slot (List.mem_of_mem_drop hslot) w hvalue

theorem given_getD_bind {p : Parameters} {values : List Value}
    (h : p.bind args named = .ok values) (i : Nat) : Given args named (values.getD i .null) := by
  rw [List.getD_eq_getElem?_getD]
  cases hi : values[i]? with
  | none => exact .null
  | some w => exact given_of_mem_bind h w (List.mem_of_getElem? hi)

end Parameters

/-! ## Calls -/

namespace Call

/-- The values in a call. -/
def arguments : Call → List Value
  | .query values | .filter values | .postFilter values | .types values | .only values
  | .onlyExactly values | .order values | .reorder values => values
  | .queryMode v | .filterMode v | .postFilterMode v | .boostMode v | .scoreMode v | .strategy v
  | .limit v | .offset v | .facets v | .aggregations v | .suggest v | .scriptFields v => [v]
  | .none | .simple => []
  | .request options => options.map Prod.snd
  | .boostFactor v scope | .weight v scope | .randomScore v scope | .fieldValueFactor v scope =>
    [v, scope]
  | .scriptScore script params scope => [script, params, scope]
  | .decay function field origin scale shift rate scope =>
    [function, field, origin, scale, shift, rate, scope]

/-- Nothing but what was given is in the call. -/
def Gives (args : List Value) (named : Mapping) (call : Call) : Prop :=
  ∀ v ∈ call.arguments, Given args named v

theorem gives_ofOne {method parameter : String} {make : Value → Call}
    (hmake : ∀ v, (make v).arguments = [v])
    (h : ofOne method parameter make args named = .ok call) : Gives args named call := by
  obtain ⟨values, hvalues, h⟩ := bind_eq_ok.mp h
  obtain rfl := Except.ok.inj h
  rw [Gives, hmake]
  exact List.forall_mem_singleton.mpr (Parameters.given_getD_bind hvalues 0)

theorem gives_ofScore {method parameter : String} {make : Value → Value → Call}
    (hmake : ∀ v scope, (make v scope).arguments = [v, scope])
    (h : ofScore method parameter make args named = .ok call) : Gives args named call := by
  obtain ⟨values, hvalues, h⟩ := bind_eq_ok.mp h
  obtain rfl := Except.ok.inj h
  rw [Gives, hmake]
  have hgiven := Parameters.given_getD_bind hvalues
  exact List.forall_mem_cons.mpr ⟨hgiven 0, List.forall_mem_singleton.mpr (hgiven 1)⟩

theorem gives_ofMany {method : String} {make : List Value → Call}
    (hmake : ∀ values, (make values).arguments = values)
    (h : ofMany method make args named = .ok call) : Gives args named call := by
  obtain ⟨_, -, h⟩ := bind_eq_ok.mp h
  obtain rfl := Except.ok.inj h
  rw [Gives, hmake]
  exact fun v hv ↦ .inl hv

theorem gives_ofNothing {method : String} {make : Call} (hmake : make.arguments = [])
    (h : ofNothing method make args named = .ok call) : Gives args named call := by
  obtain ⟨_, -, h⟩ := bind_eq_ok.mp h
  obtain rfl := Except.ok.inj h
  rw [Gives, hmake]
  exact fun v hv ↦ absurd hv List.not_mem_nil

theorem gives_ofNamed {method : String} (h : ofNamed method args named = .ok call) :
    Gives args named call := by
  obtain ⟨options, hoptions, h⟩ := bind_eq_ok.mp h
  obtain ⟨_, -, h⟩ := bind_eq_ok.mp h
  obtain rfl := Except.ok.inj h
  intro v hv
  obtain ⟨entry, hentry, rfl⟩ := List.mem_map.mp hv
  obtain ⟨option, hoption, rfl⟩ := List.mem_map.mp hentry
  exact given_of_mem_named (namedValues_eq_ok hoptions) hoption

theorem gives_ofScriptScore (h : ofScriptScore args named = .ok call) :
    Gives args named call := by
  obtain ⟨values, hvalues, h⟩ := bind_eq_ok.mp h
  obtain rfl := Except.ok.inj h
  have hgiven := Parameters.given_getD_bind hvalues
  simp only [Gives, arguments, List.forall_mem_cons, hgiven, true_and]
  exact fun v hv ↦ absurd hv List.not_mem_nil

theorem gives_ofDecay (h : ofDecay args named = .ok call) : Gives args named call := by
  obtain ⟨values, hvalues, h⟩ := bind_eq_ok.mp h
  obtain rfl := Except.ok.inj h
  have hgiven := Parameters.given_getD_bind hvalues
  simp only [Gives, arguments, List.forall_mem_cons, hgiven, true_and]
  exact fun v hv ↦ absurd hv List.not_mem_nil

theorem ofMerge_ne_ok : ofMerge args named ≠ .ok call := by
  intro h
  obtain ⟨_, -, h⟩ := bind_eq_ok.mp h
  cases h

/-- A call on a search holds nothing but what was given to it. -/
theorem gives_of_ofMethod {method : String} {make : Maker} (hmake : ofMethod method = .ok make)
    (hcall : make args named = .ok call) : Gives args named call := by
  unfold ofMethod at hmake
  split at hmake
  all_goals first
    | obtain rfl := Except.ok.inj hmake
    | cases hmake
  all_goals first
    | with_reducible refine gives_ofMany ?_ hcall
      exact fun _ ↦ rfl
    | with_reducible refine gives_ofOne ?_ hcall
      exact fun _ ↦ rfl
    | with_reducible refine gives_ofScore ?_ hcall
      exact fun _ _ ↦ rfl
    | with_reducible refine gives_ofNothing ?_ hcall
      rfl
    | with_reducible exact gives_ofNamed hcall
    | with_reducible exact gives_ofScriptScore hcall
    | with_reducible exact gives_ofDecay hcall
    | with_reducible exact absurd hcall ofMerge_ne_ok
    | cases hcall

/-! ## Modes and numbers -/

/-- A mode is set as it was checked. -/
theorem setMode_eq_ok_iff {option : String} {u : Criteria.Update} :
    setMode option v = .ok u ↔ ∃ mode, JoinMode.check v = .ok mode ∧
      u = { storage := .options, patch := .map [Mapping.entry option mode] } := by
  unfold setMode
  cases JoinMode.check v with
  | error => simp
  | ok mode =>
    rw [Except.ok.injEq, eq_comm]
    simp [setOption, Mapping.single]

theorem setCount_eq_ok_iff {option : String} {u : Criteria.Update} :
    setCount option v = .ok u ↔ ∃ count, v.toInteger = .ok count ∧
      u = { storage := .requestOptions, patch := .map [Mapping.entry option (.int count)] } := by
  unfold setCount
  cases v.toInteger with
  | error => simp [bind, Except.bind]
  | ok count =>
    simp [bind, Except.bind, pure, Except.pure, Mapping.single]
    exact eq_comm

/-! ## Scoring functions -/

/-- A scoring function is added as it is, with the fragment of its filter if it has one. -/
theorem score_eq_ok {function : Mapping} {scope : Value} {u : Criteria.Update}
    (h : score function scope = .ok u) :
    ∃ fragment : Option Mapping,
      (∀ f, fragment = some f → scope.clauseFragment = .ok f) ∧
      u = { storage := .scores
            patch := .list [.map (function.addSome "filter" (fragment.map .map))] } := by
  unfold score at h
  dsimp only at h
  split at h
  · obtain rfl := Except.ok.inj h
    exact ⟨Option.none, nofun, rfl⟩
  · cases hscope : scope.clauseFragment with
    | error =>
      rw [hscope] at h
      cases h
    | ok f =>
      rw [hscope] at h
      obtain rfl := Except.ok.inj h
      exact ⟨some f, fun g hg ↦ congrArg Except.ok (Option.some.inj hg), rfl⟩

end Call

end SearchCriteria
