import SearchCriteria.Proofs.Expression.Truth

/-!
# Clauses that hold nothing

Groups drop the fragments that are empty, but a negation and a marker wrap whatever their child comes
down to.  So a rendered fragment has a hollow clause in it exactly if one of these stands over a node
that comes down to nothing: `firm` tells this from the tree.
-/

namespace SearchCriteria

open Mapping (entry single)
open Fragment (cacheKey)

/-! ## Where clauses are -/

namespace Clause

/-- The keys whose value is a clause or the body of one. -/
def keys : List String :=
  ["query", "filter", "post_filter", "not", "and", "or", "bool", "dis_max", "filtered",
    "function_score"]

/-- The keys of rows of clauses. -/
def rowKeys : List String := ["filters", "queries", "must", "should", "must_not", "functions"]

/-- The value is one of the given texts. -/
def isAmong (names : List String) : Value → Bool
  | .text name => names.contains name
  | _ => false

end Clause

/-- Nothing but a marker, if that, is in the fragment. -/
def Fragment.hollow (fragment : Mapping) : Bool := fragment.all fun e ↦ e.1.isText cacheKey

mutual

/-- The clause is not hollow, and neither is any clause in it. -/
def Value.full : Value → Bool
  | .map entries => !Fragment.hollow entries && fullEntries entries
  | .null | .bool _ | .int _ | .real _ | .text _ | .list _ | .tuple _ | .set _ _ | .node _ => true
termination_by structural v => v

/-- Every clause of a row is full. -/
def Value.fullRow : Value → Bool
  | .list items => fullItems items
  | .null | .bool _ | .int _ | .real _ | .text _ | .tuple _ | .map _ | .set _ _ | .node _ => true
termination_by structural v => v

def fullItems : List Value → Bool
  | [] => true
  | v :: vs => v.full && fullItems vs
termination_by structural vs => vs

/-- Every clause under the keys is full. -/
def fullEntries : List (Value × Value) → Bool
  | [] => true
  | (key, value) :: entries =>
    (!Clause.isAmong Clause.keys key || value.full) &&
      (!Clause.isAmong Clause.rowKeys key || value.fullRow) && fullEntries entries
termination_by structural entries => entries

end

/-! ## Full fragments -/

/-- What is under the key is full, as far as it is a clause or a row of clauses. -/
def fullAt (e : Value × Value) : Bool :=
  (!Clause.isAmong Clause.keys e.1 || e.2.full) &&
    (!Clause.isAmong Clause.rowKeys e.1 || e.2.fullRow)

theorem fullEntries_eq (entries : Mapping) : fullEntries entries = entries.all fullAt := by
  induction entries with
  | nil => rfl
  | cons e entries ih => rw [fullEntries, ih, List.all_cons, fullAt]

theorem fullItems_eq (items : List Value) : fullItems items = items.all Value.full := by
  induction items with
  | nil => rfl
  | cons v items ih => rw [fullItems, ih, List.all_cons]

theorem fullAt_marker (value : Value) : fullAt (.text cacheKey, value) = true := by
  have hkey : Clause.isAmong Clause.keys (.text cacheKey) = false ∧
      Clause.isAmong Clause.rowKeys (.text cacheKey) = false := by decide
  simp [fullAt, hkey]

namespace Fragment

/-- What a marker is put over is a marker. -/
theorem all_putText_marker {p : Value × Value → Bool} (h : ∀ v, p (.text cacheKey, v) = true)
    (mapping : Mapping) (value : Value) :
    (mapping.putText cacheKey value).all p = mapping.all p := by
  induction mapping with
  | nil => simp [Mapping.putText, h]
  | cons e rest ih =>
    obtain ⟨key, v⟩ := e
    rw [Mapping.putText, Association.put]
    split
    · rename_i hkey
      obtain rfl : key = .text cacheKey := by
        cases key with
        | text s => rw [eq_of_beq (a := s) (b := cacheKey) hkey]
        | _ => cases hkey
      simp [h]
    · rw [List.all_cons, List.all_cons]
      exact congrArg _ ih

theorem full_putText_marker (mapping : Mapping) (value : Value) :
    (Value.map (mapping.putText cacheKey value)).full = (Value.map mapping).full := by
  rw [Value.full, Value.full, hollow, hollow, fullEntries_eq, fullEntries_eq,
    all_putText_marker (fun _ ↦ by simp), all_putText_marker fullAt_marker]

/-- A marker makes nothing of nothing, and leaves what there is as full as it is. -/
theorem full_marked (fragment : Mapping) :
    (Value.map (marked fragment)).full = (Value.map fragment).full := by
  unfold marked
  split
  · rename_i key body
    change (_ && fullEntries [(key, .map (Mapping.putText body cacheKey (.bool true)))]) =
      (_ && fullEntries [(key, .map body)])
    rw [fullEntries, fullEntries, full_putText_marker]
    rfl
  · exact full_putText_marker _ _

/-- What is under a key that takes a clause is a clause. -/
theorem fullAt_clause {name : String} (h : name ∈ Clause.keys) (hrow : name ∉ Clause.rowKeys)
    (value : Value) : fullAt (entry name value) = value.full := by
  simp [fullAt, entry, Clause.isAmong, h, hrow]

theorem fullAt_row {name : String} (h : name ∉ Clause.keys) (hrow : name ∈ Clause.rowKeys)
    (value : Value) : fullAt (entry name value) = value.fullRow := by
  simp [fullAt, entry, Clause.isAmong, h, hrow]

/-- What is under any other key is none. -/
theorem fullAt_other {name : String} (h : name ∉ Clause.keys) (hrow : name ∉ Clause.rowKeys)
    (value : Value) : fullAt (entry name value) = true := by
  simp [fullAt, entry, Clause.isAmong, h, hrow]

/-- A fragment under a key of its own is as full as what is under the key. -/
theorem full_cons_entry {name : String} (hname : name ≠ cacheKey) (value : Value)
    (rest : Mapping) :
    (Value.map (entry name value :: rest)).full =
      (fullAt (entry name value) && rest.all fullAt) := by
  simp [Value.full, hollow, entry, hname, fullEntries_eq]

theorem full_single {name : String} (hname : name ≠ cacheKey) (value : Value) :
    (Value.map (single name value)).full = fullAt (entry name value) := by
  rw [single, full_cons_entry hname, List.all_nil, Bool.and_true]

theorem full_negation (fragment : Mapping) :
    (Value.map (negation fragment)).full = (Value.map fragment).full := by
  rw [negation, full_single (by decide), fullAt_clause (by decide) (by decide)]

theorem full_cachedNegation (fragment : Mapping) :
    (Value.map (cachedNegation fragment)).full = (Value.map fragment).full := by
  rw [cachedNegation, full_cons_entry (by decide), fullAt_clause (by decide) (by decide),
    full_single (by decide), fullAt_clause (by decide) (by decide)]
  simp [entry, fullAt_marker]

/-- The fragment is empty, and will be dropped, or full. -/
def tidy (fragment : Mapping) : Bool := fragment.isEmpty || (Value.map fragment).full

/-- A full fragment is a tidy one that holds something. -/
theorem full_eq (fragment : Mapping) :
    (Value.map fragment).full = (!fragment.isEmpty && tidy fragment) := by
  cases fragment with
  | nil => rfl
  | cons => rfl

theorem all_congr_mem {α : Type} {p q : α → Bool} {xs : List α} (h : ∀ x ∈ xs, p x = q x) :
    xs.all p = xs.all q := by
  rw [Bool.eq_iff_iff, List.all_eq_true, List.all_eq_true]
  exact forall₂_congr fun x hx ↦ by rw [h x hx]

/-- A group drops what is empty, and is as tidy as its parts. -/
theorem tidy_group {mode : JoinMode} (hmode : mode.name ∈ ["and", "or"])
    (fragments : List Mapping) : tidy (group mode fragments) = fragments.all tidy := by
  have hall : fragments.all tidy = (fragments.filter (!·.isEmpty)).all tidy := by
    rw [List.all_filter]
    refine congrArg fragments.all (funext fun f ↦ ?_)
    cases f <;> rfl
  have hname : mode.name ≠ cacheKey ∧ mode.name ∈ Clause.keys ∧ mode.name ∉ Clause.rowKeys := by
    revert hmode
    cases mode <;> decide
  rw [hall, group]
  have hpresent : ∀ f ∈ fragments.filter (!·.isEmpty), f.isEmpty = false := by simp
  generalize fragments.filter (!·.isEmpty) = present at hpresent
  rcases present with _ | ⟨f, _ | ⟨g, rest⟩⟩
  · rfl
  · simp [Joined.of]
  · have hclauses : (Value.list ((f :: g :: rest).map .map)).fullRow =
        (f :: g :: rest).all tidy := by
      rw [Value.fullRow, fullItems_eq, List.all_map]
      refine all_congr_mem fun h hh ↦ ?_
      rw [Function.comp_apply, full_eq, hpresent h hh, Bool.not_false, Bool.true_and]
    rw [← hclauses]
    change (Value.map (single mode.name (.map (single "filters" _)))).full = _
    rw [full_single hname.1, fullAt_clause hname.2.1 hname.2.2, full_single (by decide),
      fullAt_row (by decide) (by decide)]

theorem isEmpty_group (mode : JoinMode) (fragments : List Mapping) :
    (group mode fragments).isEmpty = fragments.all List.isEmpty := by
  have hall : fragments.all List.isEmpty = (fragments.filter (!·.isEmpty)).isEmpty := by
    rw [Bool.eq_iff_iff]
    simp
  rw [hall, group]
  have hpresent : ∀ f ∈ fragments.filter (!·.isEmpty), f.isEmpty = false := by simp
  generalize fragments.filter (!·.isEmpty) = present at hpresent
  rcases present with _ | ⟨f, _ | ⟨g, rest⟩⟩
  · rfl
  · exact hpresent f (List.mem_singleton_self f)
  · rfl

theorem full_test (t : FieldTest) : (Value.map t.fragment).full = true := by
  cases t with
  | term field value =>
    change (Value.map (term field value)).full = true
    unfold term
    split
    · rw [full_single (by decide), fullAt_other (by decide) (by decide)]
    · rw [full_single (by decide), fullAt_other (by decide) (by decide)]
  | range field limits =>
    change (Value.map (range field limits)).full = true
    rw [range, full_single (by decide), fullAt_other (by decide) (by decide)]
  | present field =>
    change (Value.map (present field)).full = true
    rw [present, full_single (by decide), fullAt_other (by decide) (by decide)]

theorem full_condition (c : Condition) : (Value.map c.fragment).full = true := by
  obtain ⟨test, negated⟩ := c
  cases negated with
  | false => exact full_test test
  | true => exact (full_negation _).trans (full_test test)

/-- What is full is not empty, and tidy. -/
theorem tidy_of_full {fragment : Mapping} (h : (Value.map fragment).full = true) :
    fragment.isEmpty = false ∧ tidy fragment = true := by
  rw [full_eq, Bool.and_eq_true, Bool.not_eq_true'] at h
  exact h

end Fragment

/-! ## Full nodes -/

mutual

/-- The node comes down to nothing: an empty raw fragment, or a group of such nodes. -/
def Expression.vacant : Expression → Bool
  | .raw fragment => fragment.isEmpty
  | .and nodes | .or nodes => vacantNodes nodes
  | .lookup lookups => lookups.isEmpty
  | .base | .term _ _ | .range _ _ | .present _ | .script _ _ | .not _ | .cached _ => false
termination_by structural e => e

def vacantNodes : List Expression → Bool
  | [] => true
  | e :: es => e.vacant && vacantNodes es
termination_by structural es => es

end

mutual

/-- No negation and no marker stands over a vacant node. -/
def Expression.firm : Expression → Bool
  | .not node | .cached node => !node.vacant && node.firm
  | .and nodes | .or nodes => firmNodes nodes
  | .base | .term _ _ | .range _ _ | .present _ | .script _ _ | .raw _ | .lookup _ => true
termination_by structural e => e

def firmNodes : List Expression → Bool
  | [] => true
  | e :: es => e.firm && firmNodes es
termination_by structural es => es

end

mutual

/-- A raw fragment in the node that is not empty is full. -/
def Expression.rawFull : Expression → Bool
  | .raw fragment => Fragment.tidy fragment
  | .not node | .cached node => node.rawFull
  | .and nodes | .or nodes => rawFullNodes nodes
  | .base | .term _ _ | .range _ _ | .present _ | .script _ _ | .lookup _ => true
termination_by structural e => e

def rawFullNodes : List Expression → Bool
  | [] => true
  | e :: es => e.rawFull && rawFullNodes es
termination_by structural es => es

end

/-! ## What nodes come down to -/

theorem Lookups.isEmpty_fragment (lookups : Lookups) :
    lookups.fragment.isEmpty = lookups.isEmpty := by
  rw [fragment, Fragment.allOf, Fragment.isEmpty_group]
  cases lookups with
  | nil => rfl
  | cons l rest =>
    obtain ⟨c, hc⟩ := List.exists_mem_of_ne_nil _ (conditions_ne_nil (List.cons_ne_nil l rest))
    have hempty := (Fragment.tidy_of_full (Fragment.full_condition c)).1
    rw [List.isEmpty_cons, List.all_eq_false]
    exact ⟨_, List.mem_map_of_mem hc, by rw [hempty]; exact Bool.false_ne_true⟩

theorem Lookups.tidy_fragment (lookups : Lookups) : Fragment.tidy lookups.fragment = true := by
  rw [fragment, Fragment.allOf, Fragment.tidy_group (by decide), List.all_map, List.all_eq_true]
  exact fun c _ ↦ (Fragment.tidy_of_full (Fragment.full_condition c)).2

mutual

/-- A node renders to nothing exactly if it is vacant. -/
theorem Expression.isEmpty_render : ∀ {e : Expression} {f : Mapping},
    e.render = .ok f → f.isEmpty = e.vacant
  | .base, _, h => nomatch h
  | .term field value, _, h => by
    obtain rfl := Except.ok.inj h
    exact (Fragment.tidy_of_full (Fragment.full_test (.term field value))).1
  | .range _ _, _, h | .present _, _, h | .raw _, _, h => by
    obtain rfl := Except.ok.inj h
    rfl
  | .script _ _, _, h => by
    obtain ⟨body, -, h⟩ := bind_eq_ok.mp h
    obtain rfl := Except.ok.inj h
    rfl
  | .lookup lookups, _, h => by
    obtain rfl := Except.ok.inj h
    exact Lookups.isEmpty_fragment lookups
  | .and nodes, _, h | .or nodes, _, h => by
    obtain ⟨fragments, hfragments, h⟩ := bind_eq_ok.mp h
    obtain rfl := Except.ok.inj h
    exact (Fragment.isEmpty_group _ fragments).trans (isEmpty_renderNodes hfragments)
  -- a negation or a marker leaves something, whatever it wraps
  | .not _, _, h => by
    rcases Expression.render_not_eq_ok h with ⟨_, _, -, -, rfl⟩ | ⟨_, -, rfl⟩ <;> rfl
  | .cached _, _, h => by
    rcases Expression.render_cached_eq_ok h with ⟨_, _, -, -, rfl⟩ | ⟨f, -, rfl⟩
    · rfl
    · exact List.isEmpty_eq_false_iff.mpr (Fragment.marked_ne_nil f)

theorem isEmpty_renderNodes : ∀ {es : List Expression} {fragments : List Mapping},
    renderNodes es = .ok fragments → fragments.all List.isEmpty = vacantNodes es
  | [], _, h => by
    obtain rfl := Except.ok.inj h
    rfl
  | _ :: es, _, h => by
    obtain ⟨fragment, hfragment, h⟩ := bind_eq_ok.mp h
    obtain ⟨rest, hrest, h⟩ := bind_eq_ok.mp h
    obtain rfl := Except.ok.inj h
    rw [List.all_cons, Expression.isEmpty_render hfragment, isEmpty_renderNodes hrest, vacantNodes]

end

/-- What is rendered is full if it is tidy and its node is not vacant. -/
theorem Expression.full_eq {e : Expression} {f : Mapping} (h : e.render = .ok f) :
    (Value.map f).full = (!e.vacant && Fragment.tidy f) := by
  rw [Fragment.full_eq, isEmpty_render h]

mutual

/-- A node renders to something tidy exactly if it is firm. -/
theorem Expression.tidy_render : ∀ {e : Expression} {f : Mapping}, e.rawFull = true →
    e.render = .ok f → Fragment.tidy f = e.firm
  | .base, _, _, h => nomatch h
  | .term field value, _, _, h => by
    obtain rfl := Except.ok.inj h
    exact (Fragment.tidy_of_full (Fragment.full_test (.term field value))).2
  | .range field limits, _, _, h => by
    obtain rfl := Except.ok.inj h
    exact (Fragment.tidy_of_full (Fragment.full_test (.range field limits))).2
  | .present field, _, _, h => by
    obtain rfl := Except.ok.inj h
    exact (Fragment.tidy_of_full (Fragment.full_test (.present field))).2
  | .script source params, _, _, h => by
    obtain ⟨body, -, h⟩ := bind_eq_ok.mp h
    obtain rfl := Except.ok.inj h
    refine (Fragment.tidy_of_full ?_).2
    rw [Fragment.full_single (by decide), Fragment.fullAt_other (by decide) (by decide)]
  | .raw fragment, _, hraw, h => by
    obtain rfl := Except.ok.inj h
    exact hraw
  | .lookup lookups, _, _, h => by
    obtain rfl := Except.ok.inj h
    exact Lookups.tidy_fragment lookups
  | .and nodes, _, hraw, h | .or nodes, _, hraw, h => by
    obtain ⟨fragments, hfragments, h⟩ := bind_eq_ok.mp h
    obtain rfl := Except.ok.inj h
    exact (Fragment.tidy_group (by decide) fragments).trans (tidy_renderNodes hraw hfragments)
  | .not node, _, hraw, h => by
    rcases Expression.render_not_eq_ok h with ⟨inner, f, rfl, hf, rfl⟩ | ⟨f, hf, rfl⟩
    · refine (Fragment.full_cachedNegation f).trans ?_
      rw [Expression.full_eq hf, Expression.tidy_render (e := inner) hraw hf]
      rfl
    · refine (Fragment.full_negation f).trans ?_
      rw [Expression.full_eq hf, Expression.tidy_render (e := node) hraw hf]
      rfl
  | .cached node, _, hraw, h => by
    rcases Expression.render_cached_eq_ok h with ⟨inner, f, rfl, hf, rfl⟩ | ⟨f, hf, rfl⟩
    · refine (Fragment.full_cachedNegation f).trans ?_
      rw [Expression.full_eq hf, Expression.tidy_render (e := inner) hraw hf]
      rfl
    · have hmarked := List.isEmpty_eq_false_iff.mpr (Fragment.marked_ne_nil f)
      rw [Fragment.tidy, hmarked, Bool.false_or, Fragment.full_marked, Expression.full_eq hf,
        Expression.tidy_render (e := node) hraw hf]
      rfl

theorem tidy_renderNodes : ∀ {es : List Expression} {fragments : List Mapping},
    rawFullNodes es = true → renderNodes es = .ok fragments →
      fragments.all Fragment.tidy = firmNodes es
  | [], _, _, h => by
    obtain rfl := Except.ok.inj h
    rfl
  | e :: es, _, hraw, h => by
    obtain ⟨fragment, hfragment, h⟩ := bind_eq_ok.mp h
    obtain ⟨rest, hrest, h⟩ := bind_eq_ok.mp h
    obtain rfl := Except.ok.inj h
    obtain ⟨he, hes⟩ := Bool.and_eq_true_iff.mp hraw
    rw [List.all_cons, Expression.tidy_render he hfragment, tidy_renderNodes hes hrest, firmNodes]

end

end SearchCriteria
