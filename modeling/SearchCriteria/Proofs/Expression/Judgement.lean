import SearchCriteria.Expression.Render
import SearchCriteria.Proofs.Value.Named

/-!
# Judgements of filter fragments

A judgement tells which filter fragments hold of a document.  It may judge leaves as it likes, but
reads conjunctions, disjunctions and negations as such, and does not see the markers that make a
fragment cacheable.  A node is read off its tree, by the fragments of its leaves alone.
-/

namespace SearchCriteria

open Mapping (entry)
open Fragment (cacheKey)

/-- A judgement of filter fragments. -/
structure Judgement where
  /-- The fragments that hold. -/
  holds : Mapping → Bool
  holds_and (clauses : List Mapping) :
    holds [entry "and" (.map [entry "filters" (.list (clauses.map .map))])] = clauses.all holds
  holds_or (clauses : List Mapping) :
    holds [entry "or" (.map [entry "filters" (.list (clauses.map .map))])] = clauses.any holds
  holds_not (clause : Mapping) : holds [entry "not" (.map clause)] = !holds clause
  holds_cachedNot (clause : Mapping) :
    holds [entry "not" (.map [entry "filter" (.map clause)]), entry "_cache" (.bool true)] =
      !holds clause
  /-- A marker beside the keys of a fragment changes nothing. -/
  holds_beside (fragment : Mapping) (h : fragment.getText? "_cache" = none) :
    holds (fragment ++ [entry "_cache" (.bool true)]) = holds fragment
  /-- A marker in the body of the only key changes nothing. -/
  holds_inside (key : Value) (body : Mapping) (h : body.getText? "_cache" = none) :
    holds [(key, .map (body ++ [entry "_cache" (.bool true)]))] = holds [(key, .map body)]

/-! ## Reading the tree -/

namespace Judgement

variable (J : Judgement)

/-- What a leaf says is what its fragment says. -/
def ofFragment : Except Fault Mapping → Bool
  | .ok fragment => J.holds fragment
  | .error _ => false

/-- Whether a test has the outcome that a condition asks for. -/
def ofCondition (c : Condition) : Bool :=
  if c.negated then !J.holds c.test.fragment else J.holds c.test.fragment

end Judgement

mutual

/-- Whether a node holds, read off the tree: leaves by their fragments, the rest as it is built. -/
def Expression.truth (J : Judgement) : Expression → Bool
  | .and nodes => (truths J nodes).all id
  | .or nodes => (truths J nodes).any id
  | .not node => !node.truth J
  | .cached node => node.truth J
  | .lookup lookups => (Lookups.conditions lookups).all J.ofCondition
  | leaf => J.ofFragment leaf.render
termination_by structural e => e

def truths (J : Judgement) : List Expression → List Bool
  | [] => []
  | e :: es => e.truth J :: truths J es
termination_by structural es => es

end

theorem truths_eq_map (J : Judgement) (nodes : List Expression) :
    truths J nodes = nodes.map (·.truth J) := by
  induction nodes with
  | nil => rfl
  | cons e es ih => rw [truths, ih, List.map_cons]

namespace Expression

variable (J : Judgement)

theorem truth_and (nodes : List Expression) :
    (Expression.and nodes).truth J = nodes.all (·.truth J) := by
  rw [truth, truths_eq_map, List.all_map]
  rfl

theorem truth_or (nodes : List Expression) :
    (Expression.or nodes).truth J = nodes.any (·.truth J) := by
  rw [truth, truths_eq_map, List.any_map]
  rfl

theorem truth_toExpression (c : Condition) : c.toExpression.truth J = J.ofCondition c := by
  obtain ⟨test, negated⟩ := c
  cases negated <;> cases test <;> rfl

/-- Lookups hold if all the nodes do that they are resolved to. -/
theorem truth_lookup (lookups : Lookups) :
    (Expression.lookup lookups).truth J = lookups.nodes.all (·.truth J) := by
  rw [truth, Lookups.nodes, List.all_map]
  exact congrArg lookups.conditions.all (funext fun c ↦ (truth_toExpression J c).symm)

end Expression

/-! ## Judgements from leaves -/

namespace Judgement

/-- A fragment without its markers. -/
def bare (fragment : Mapping) : Mapping :=
  match fragment.eraseText cacheKey with
  | [(key, .map body)] => [(key, .map (Mapping.eraseText body cacheKey))]
  | other => other

/-- The fragments in a list. -/
def fragmentsIn (clauses : List Value) : List Mapping :=
  clauses.filterMap fun
    | .map fragment => some fragment
    | _ => none

/-- What a wrapper makes of the parts in it. -/
def reading? (fragment : Mapping) : Option ((List Bool → Bool) × List Mapping) :=
  match bare fragment with
  | [(.text "and", .map [(.text "filters", .list clauses)])] =>
    some ((·.all id), fragmentsIn clauses)
  | [(.text "or", .map [(.text "filters", .list clauses)])] =>
    some ((·.any id), fragmentsIn clauses)
  | [(.text "not", .map clause)] => some ((·.all (!·)), [clause])
  | [(.text "filter", .map clause)] => some ((·.all id), [clause])
  | _ => none

theorem sizeOf_eraseText_le (mapping : Mapping) (name : String) :
    sizeOf (mapping.eraseText name) ≤ sizeOf mapping := by
  induction mapping with
  | nil => exact Nat.le_refl _
  | cons e rest ih =>
    change sizeOf (Mapping.eraseText rest name) ≤ sizeOf rest at ih
    simp only [Mapping.eraseText, Association.erase, List.filter_cons] at ih ⊢
    split <;> simp only [List.cons.sizeOf_spec] <;> omega

theorem sizeOf_bare_le (fragment : Mapping) : sizeOf (bare fragment) ≤ sizeOf fragment := by
  have herased := sizeOf_eraseText_le fragment cacheKey
  unfold bare
  split
  · rename_i key body heq
    have hbody := sizeOf_eraseText_le body cacheKey
    rw [heq] at herased
    simp only [List.cons.sizeOf_spec, Prod.mk.sizeOf_spec, Value.map.sizeOf_spec] at herased ⊢
    omega
  · exact herased

theorem sizeOf_lt_of_mem_fragmentsIn {clauses : List Value} {part : Mapping}
    (h : part ∈ fragmentsIn clauses) : sizeOf part < sizeOf clauses := by
  obtain ⟨clause, hclause, heq⟩ := List.mem_filterMap.mp h
  cases clause with
  | map fragment =>
    obtain rfl := Option.some.inj heq
    have hlt : sizeOf (Value.map fragment) < sizeOf clauses := List.sizeOf_lt_of_mem hclause
    rw [Value.map.sizeOf_spec] at hlt
    omega
  | _ => cases heq

theorem sizeOf_lt_of_reading? {fragment : Mapping} {join : List Bool → Bool}
    {parts : List Mapping} (h : reading? fragment = some (join, parts)) {part : Mapping}
    (hpart : part ∈ parts) : sizeOf part < sizeOf fragment := by
  refine Nat.lt_of_lt_of_le ?_ (sizeOf_bare_le fragment)
  unfold reading? at h
  split at h
  case h_5 => cases h
  all_goals
    rename_i heq
    cases h
    rw [heq]
    simp only [List.cons.sizeOf_spec, Prod.mk.sizeOf_spec, Value.map.sizeOf_spec,
      Value.list.sizeOf_spec]
  case h_1 | h_2 =>
    have hlt := sizeOf_lt_of_mem_fragmentsIn hpart
    omega
  case h_3 | h_4 =>
    obtain rfl := List.mem_singleton.mp hpart
    omega

/-- Wrappers are read by their parts, and fragments that wrap nothing are judged as leaves. -/
def judge (leaf : Mapping → Bool) (fragment : Mapping) : Bool :=
  match _h : reading? fragment with
  | none => leaf (bare fragment)
  | some (join, parts) => join (parts.attach.map fun part ↦ judge leaf part.1)
termination_by sizeOf fragment
decreasing_by exact sizeOf_lt_of_reading? ‹_› part.2

variable {leaf : Mapping → Bool} {fragment other : Mapping}

theorem judge_of_reading {join : List Bool → Bool} {parts : List Mapping}
    (h : reading? fragment = some (join, parts)) :
    judge leaf fragment = join (parts.map (judge leaf)) := by
  rw [judge]
  split
  · rename_i hnone
    rw [h] at hnone
    cases hnone
  · rename_i hsome
    rw [h] at hsome
    cases hsome
    rw [List.map_attach_eq_pmap, List.pmap_eq_map]

theorem judge_of_no_reading (h : reading? fragment = none) :
    judge leaf fragment = leaf (bare fragment) := by
  rw [judge]
  split
  · rfl
  · rename_i hsome
    rw [h] at hsome
    cases hsome

/-- Fragments that differ in markers only are judged alike. -/
theorem judge_congr (h : bare fragment = bare other) : judge leaf fragment = judge leaf other := by
  have hreading : reading? fragment = reading? other := by rw [reading?, h, reading?]
  cases hother : reading? other with
  | some r => rw [judge_of_reading (hreading.trans hother), judge_of_reading hother]
  | none => rw [judge_of_no_reading (hreading.trans hother), judge_of_no_reading hother, h]

theorem eraseText_marker (fragment : Mapping) :
    (fragment ++ [entry cacheKey (.bool true)]).eraseText cacheKey =
      fragment.eraseText cacheKey := by
  rw [Mapping.eraseText_append]
  exact List.append_nil _

theorem bare_beside (fragment : Mapping) :
    bare (fragment ++ [entry cacheKey (.bool true)]) = bare fragment := by
  rw [bare, eraseText_marker, bare]

theorem bare_erased (fragment : Mapping) : bare (fragment.eraseText cacheKey) = bare fragment := by
  have htwice : (fragment.eraseText cacheKey).eraseText cacheKey = fragment.eraseText cacheKey := by
    simp [Mapping.eraseText, Association.erase]
  rw [bare, htwice, bare]

/-- Bodies that differ in markers only are in fragments that differ in markers only. -/
theorem bare_lone (key : Value) {body other : Mapping}
    (h : body.eraseText cacheKey = other.eraseText cacheKey) :
    bare [(key, .map body)] = bare [(key, .map other)] := by
  cases hkey : key.sameText (.text cacheKey) with
  | true => simp [bare, Mapping.eraseText, Association.erase, hkey]
  | false =>
    simp only [Mapping.eraseText, Association.erase] at h
    simp [bare, Mapping.eraseText, Association.erase, hkey, h]

theorem fragmentsIn_map (clauses : List Mapping) : fragmentsIn (clauses.map .map) = clauses := by
  rw [fragmentsIn, List.filterMap_map]
  exact List.filterMap_some

/-- Any judgement of the leaves makes a judgement of all fragments. -/
def ofLeaves (leaf : Mapping → Bool) : Judgement where
  holds := judge leaf
  holds_and clauses := by
    have hreading : reading? [entry "and" (.map [entry "filters" (.list (clauses.map .map))])] =
        some ((·.all id), fragmentsIn (clauses.map .map)) := rfl
    rw [judge_of_reading hreading, fragmentsIn_map, List.all_map]
    rfl
  holds_or clauses := by
    have hreading : reading? [entry "or" (.map [entry "filters" (.list (clauses.map .map))])] =
        some ((·.any id), fragmentsIn (clauses.map .map)) := rfl
    rw [judge_of_reading hreading, fragmentsIn_map, List.any_map]
    rfl
  holds_not clause := by
    have hreading : reading? [entry "not" (.map clause)] =
        some ((·.all (!·)), [clause.eraseText cacheKey]) := rfl
    rw [judge_of_reading hreading]
    simp [judge_congr (bare_erased clause)]
  holds_cachedNot clause := by
    have hreading : reading?
        [entry "not" (.map [entry "filter" (.map clause)]), entry "_cache" (.bool true)] =
          some ((·.all (!·)), [[entry "filter" (.map clause)]]) := rfl
    have hfilter : reading? [entry "filter" (.map clause)] =
        some ((·.all id), [clause.eraseText cacheKey]) := rfl
    rw [judge_of_reading hreading]
    simp [judge_of_reading hfilter, judge_congr (bare_erased clause)]
  holds_beside fragment _ := judge_congr (bare_beside fragment)
  holds_inside key body _ := judge_congr (bare_lone key (eraseText_marker body))

end Judgement

end SearchCriteria
